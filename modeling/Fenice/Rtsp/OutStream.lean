import Fenice.Lib.Run
import Fenice.Rtsp.Methods

/-!
# The bytes of a connection (bwrite.c, RTSP_send.c, rtsp_server.c)

Replies and interleaved packets are put into one `out_buffer` and sent from it
in parts. `Traffic` remembers what was put there and what `send` has accepted.
-/

namespace Fenice.Rtsp
open Fenice.CString Fenice.Run

/-- `ERR_ALLOC` and `ERR_CONNECTION_CLOSE`. -/
def errAlloc : ℤ := -4
def errConnectionClose : ℤ := -10

inductive RTSPProto where
  | tcp | sctp
  deriving DecidableEq

/-- `out_buffer`, `out_size` and `out_sent` of an `RTSP_buffer`. -/
structure OutBuffer where
  proto : RTSPProto
  bytes : Bytes
  outSize : ℕ
  outSent : ℕ
  full : bytes.length = outBufferSize

namespace OutBuffer

/-- `bwrite`. `none`: the zero behind the message is written behind `out_buffer`. -/
def bwrite (buffer : Bytes) (o : OutBuffer) : Option (ℤ × OutBuffer) :=
  if outBufferSize < o.outSize + buffer.length then some (errAlloc, o)
  else if h : o.outSize + buffer.length < outBufferSize then
    some (0,
      { o with
        bytes := o.bytes.take o.outSize ++ (buffer ++ 0 :: o.bytes.drop (o.outSize + buffer.length + 1))
        outSize := o.outSize + buffer.length
        full := by
          have := o.full
          simp only [List.length_append, List.length_take, List.length_cons, List.length_drop]
          omega })
  else none

/-- What `RTSP_send` hands to `send`. -/
def pending (o : OutBuffer) : Bytes := (o.bytes.take o.outSize).drop o.outSent

/-- The cursors behind `n` accepted bytes. -/
def sent (o : OutBuffer) (n : ℕ) : OutBuffer :=
  if o.outSent + n = o.outSize then { o with outSize := 0, outSent := 0 }
  else { o with outSent := o.outSent + n }

/-- `RTSP_send`: its result, the bytes that `send` accepted, and the buffer; `n` is
the result of `send`, which does not accept more than it is given. -/
def RTSP_send (n : Option ℕ) (o : OutBuffer) : ℤ × Bytes × OutBuffer :=
  if o.outSize = 0 then (0, [], o)
  else
    match o.proto, n with
    | .sctp, _ => (errGeneric, [], o)
    | .tcp, none => (-1, [], o)
    | .tcp, some n =>
      let n := min n (o.outSize - o.outSent)
      (n, o.pending.take n, o.sent n)

end OutBuffer

/-- The first four bytes of an interleaved packet. -/
def packetPrefix (channel n : ℕ) : Bytes :=
  [36, UInt8.ofNat channel, UInt8.ofNat (n / 256), UInt8.ofNat n]

/-- What `read` leaves of a packet of the local socket. -/
def readPacket (packet : Bytes) : Bytes := packet.take (outBufferSize - 4)

/-- A packet at the start of `out_buffer`. -/
def OutBuffer.putPacket (channel : ℕ) (packet : Bytes) (o : OutBuffer) : OutBuffer where
  proto := o.proto
  bytes := packetPrefix channel (readPacket packet).length ++
    (readPacket packet ++ o.bytes.drop ((readPacket packet).length + 4))
  outSize := (readPacket packet).length + 4
  outSent := o.outSent
  full := by
    have := o.full
    have hle : (readPacket packet).length ≤ outBufferSize - 4 := List.length_take_le _ _
    have h4 : 4 ≤ outBufferSize := by decide
    simp only [packetPrefix, List.length_append, List.length_cons, List.length_nil, List.length_drop]
    omega

/-- What was put into the buffer. -/
inductive Item where
  | reply (buffer : Bytes)
  | packet (channel : ℕ) (payload : Bytes)

def Item.bytes : Item → Bytes
  | .reply buffer => buffer
  | .packet channel payload => packetPrefix channel payload.length ++ payload

def itemBytes (items : List Item) : Bytes := items.flatMap Item.bytes

structure Traffic where
  out : OutBuffer
  items : List Item
  accepted : Bytes

/-- A new connection. -/
def Traffic.init (proto : RTSPProto) : Traffic :=
  ⟨⟨proto, List.replicate outBufferSize 0, 0, 0, List.length_replicate⟩, [], []⟩

/-- What happens to `out_buffer`: a reply, one turn of the loop of `rtsp_server` over
the local sockets with a packet, and a call of `RTSP_send`. -/
inductive OutAct where
  | bwrite (buffer : Bytes)
  | packet (channel : ℕ) (packet : Bytes)
  | send (n : Option ℕ)

/-- A packet is only taken when `out_buffer` is empty. -/
def outStep (t : Traffic) : OutAct → Option Traffic
  | .bwrite buffer =>
    (t.out.bwrite buffer).map fun (rc, out) =>
      { t with out, items := if rc = 0 then t.items ++ [.reply buffer] else t.items }
  | .packet channel packet =>
    some (if t.out.outSize = 0 then
      { t with
        out := t.out.putPacket channel packet
        items := t.items ++ [.packet channel (readPacket packet)] }
      else t)
  | .send n =>
    let r := t.out.RTSP_send n
    some { t with out := r.2.2, accepted := t.accepted ++ r.2.1 }

/-- A reply does not fill `out_buffer` to its last byte. -/
def Room (t : Traffic) : OutAct → Prop
  | .bwrite buffer => t.out.outSize + buffer.length ≠ outBufferSize
  | _ => True

instance (t : Traffic) (a : OutAct) : Decidable (Room t a) := by
  cases a <;> dsimp only [Room] <;> infer_instance

/-- What holds of the state. -/
structure Intact (t : Traffic) : Prop where
  accepted : t.accepted <+: itemBytes t.items
  sent : t.out.outSent ≤ t.out.outSize
  refused : ∀ buffer o, t.out.bwrite buffer = some (errAlloc, o) → o = t.out

/-! ### The invariant -/

structure StreamInv (t : Traffic) : Prop where
  stream : itemBytes t.items = t.accepted ++ t.out.pending
  size : t.out.outSize ≤ outBufferSize
  sent : t.out.outSent < t.out.outSize ∨ t.out.outSize = 0 ∧ t.out.outSent = 0

theorem itemBytes_snoc (items : List Item) (i : Item) :
    itemBytes (items ++ [i]) = itemBytes items ++ i.bytes := by
  unfold itemBytes
  rw [List.flatMap_append, List.flatMap_singleton]

theorem StreamInv.init (proto : RTSPProto) : StreamInv (Traffic.init proto) :=
  ⟨rfl, Nat.zero_le _, Or.inr ⟨rfl, rfl⟩⟩

theorem StreamInv.bwrite {t t' : Traffic} {buffer : Bytes} (hi : StreamInv t)
    (h : outStep t (.bwrite buffer) = some t') : StreamInv t' := by
  obtain ⟨r, hr, rfl⟩ := Option.map_eq_some_iff.mp h
  have hfull := t.out.full
  have hsize := hi.size
  have hsent := hi.sent
  unfold OutBuffer.bwrite at hr
  by_cases hbig : outBufferSize < t.out.outSize + buffer.length
  · rw [if_pos hbig] at hr
    cases hr
    dsimp only
    rw [if_neg (by decide)]
    exact hi
  rw [if_neg hbig] at hr
  by_cases hfit : t.out.outSize + buffer.length < outBufferSize
  · rw [dif_pos hfit] at hr
    cases hr
    dsimp only
    rw [if_pos rfl]
    constructor
    · rw [itemBytes_snoc, hi.stream, List.append_assoc]
      congr 1
      unfold OutBuffer.pending
      dsimp only
      have htake : (t.out.bytes.take t.out.outSize).length = t.out.outSize := by
        rw [List.length_take, hfull, min_eq_left hsize]
      rw [← List.append_assoc, List.take_left' (by rw [List.length_append, htake]),
        List.drop_append_of_le_length (by omega)]
      rfl
    · exact Nat.le_of_lt hfit
    · dsimp only
      omega
  · rw [dif_neg hfit] at hr
    cases hr

theorem StreamInv.packet {t t' : Traffic} {channel : ℕ} {packet : Bytes} (hi : StreamInv t)
    (h : outStep t (.packet channel packet) = some t') : StreamInv t' := by
  cases h
  by_cases hempty : t.out.outSize = 0
  · rw [if_pos hempty]
    have hle : (readPacket packet).length ≤ outBufferSize - 4 := List.length_take_le _ _
    have h4 : 4 ≤ outBufferSize := by decide
    have hsent : t.out.outSent = 0 := by
      have := hi.sent
      omega
    constructor
    · have hpending : t.out.pending = [] := by
        unfold OutBuffer.pending
        rw [hempty, List.take_zero, List.drop_nil]
      rw [itemBytes_snoc, hi.stream, hpending, List.append_nil]
      congr 1
      unfold OutBuffer.pending OutBuffer.putPacket
      dsimp only
      rw [hsent, List.drop_zero, ← List.append_assoc, List.take_left']
      · rfl
      · rw [List.length_append]
        exact Nat.add_comm _ _
    · unfold OutBuffer.putPacket
      dsimp only
      omega
    · unfold OutBuffer.putPacket
      dsimp only
      omega
  · rw [if_neg hempty]
    exact hi

theorem StreamInv.send {t t' : Traffic} {n : Option ℕ} (hi : StreamInv t)
    (h : outStep t (.send n) = some t') : StreamInv t' := by
  cases h
  have hsame : StreamInv { t with out := t.out, accepted := t.accepted ++ [] } := by
    rw [List.append_nil]
    exact hi
  unfold OutBuffer.RTSP_send
  by_cases hempty : t.out.outSize = 0
  · rw [if_pos hempty]
    exact hsame
  rw [if_neg hempty]
  cases hproto : t.out.proto with
  | sctp => exact hsame
  | tcp =>
    cases n with
    | none => exact hsame
    | some n =>
      dsimp only
      have hfull := t.out.full
      have hsize := hi.size
      have hsent := hi.sent
      have hlen : t.out.pending.length = t.out.outSize - t.out.outSent := by
        unfold OutBuffer.pending
        rw [List.length_drop, List.length_take, hfull, min_eq_left hsize]
      have hm : min n (t.out.outSize - t.out.outSent) ≤ t.out.outSize - t.out.outSent :=
        min_le_right _ _
      generalize min n (t.out.outSize - t.out.outSent) = m at hm ⊢
      unfold OutBuffer.sent
      by_cases hall : t.out.outSent + m = t.out.outSize
      · rw [if_pos hall]
        constructor
        · dsimp only
          rw [hi.stream, List.take_of_length_le (by omega)]
          unfold OutBuffer.pending
          dsimp only
          rw [List.take_zero, List.drop_nil, List.append_nil]
        · exact Nat.zero_le _
        · exact Or.inr ⟨rfl, rfl⟩
      · rw [if_neg hall]
        constructor
        · dsimp only
          rw [hi.stream, List.append_assoc]
          congr 1
          conv_lhs => rw [← List.take_append_drop m t.out.pending]
          unfold OutBuffer.pending
          dsimp only
          rw [List.drop_drop]
        · exact hsize
        · exact Or.inl (by dsimp only; omega)

theorem StreamInv.step {t t' : Traffic} {a : OutAct} (hi : StreamInv t)
    (h : outStep t a = some t') : StreamInv t' := by
  cases a with
  | bwrite buffer => exact hi.bwrite h
  | packet channel packet => exact hi.packet h
  | send n => exact hi.send h

theorem StreamInv.intact {t : Traffic} (hi : StreamInv t) : Intact t := by
  refine ⟨⟨t.out.pending, hi.stream.symm⟩, ?_, ?_⟩
  · have := hi.sent
    omega
  · intro buffer o h
    unfold OutBuffer.bwrite at h
    split at h
    · cases h
      rfl
    · split at h
      · cases h
      · cases h

theorem bwrite_defined (o : OutBuffer) (buffer : Bytes) :
    (∃ r, o.bwrite buffer = some r) ↔ o.outSize + buffer.length ≠ outBufferSize := by
  unfold OutBuffer.bwrite
  by_cases hbig : outBufferSize < o.outSize + buffer.length
  · rw [if_pos hbig]
    exact ⟨fun _ => (by omega), fun _ => ⟨_, rfl⟩⟩
  rw [if_neg hbig]
  by_cases hfit : o.outSize + buffer.length < outBufferSize
  · rw [dif_pos hfit]
    exact ⟨fun _ => (by omega), fun _ => ⟨_, rfl⟩⟩
  · rw [dif_neg hfit]
    constructor
    · intro ⟨_, h⟩
      cases h
    · intro h
      omega

/-- What the methods take for `out_buffer` is what is sent from it. -/
structure Output.Holds (out : Output) (o : OutBuffer) : Prop where
  size : o.outSize = out.bytes.length
  bytes : o.bytes.take o.outSize = out.bytes
  sent : o.outSent = out.sent

/-- The two agree about a reply, appended or refused, unless it fills the buffer to the last byte. -/
theorem Output.Holds.bwrite {out : Output} {o : OutBuffer} (h : out.Holds o) (r : Reply)
    (hroom : o.outSize + r.render.length ≠ outBufferSize) :
    ∃ rc o', o.bwrite r.render = some (rc, o') ∧ (out.bwrite r).Holds o' ∧
      (rc = errAlloc ↔ (out.bwrite r).bytes = out.bytes) := by
  have hsize := h.size
  have hlong : 0 < r.render.length := by
    simp only [Reply.render, List.length_append, el, List.length_cons]
    omega
  unfold OutBuffer.bwrite Output.bwrite
  by_cases hbig : outBufferSize < o.outSize + r.render.length
  · have hbig' : outBufferSize < out.bytes.length + r.render.length := by omega
    simp only [if_pos hbig, if_pos hbig']
    exact ⟨_, _, rfl, ⟨h.size, h.bytes, h.sent⟩, iff_of_true rfl trivial⟩
  · have hbig' : ¬ outBufferSize < out.bytes.length + r.render.length := by omega
    have hfit : o.outSize + r.render.length < outBufferSize := by omega
    simp only [if_neg hbig, if_neg hbig', dif_pos hfit]
    have hfront : (o.bytes.take o.outSize).length = o.outSize := by
      rw [h.bytes, hsize]
    refine ⟨_, _, rfl, ⟨?_, ?_, h.sent⟩, iff_of_false (by decide) fun heq => ?_⟩
    · rw [List.length_append, ← hsize]
    · dsimp only
      rw [← List.append_assoc, List.take_left' (by rw [List.length_append, hfront]), h.bytes]
    · have hlength := congrArg List.length heq
      rw [List.length_append] at hlength
      omega

theorem outStep_defined (t : Traffic) (a : OutAct) : (∃ t', outStep t a = some t') ↔ Room t a := by
  cases a with
  | bwrite buffer =>
    refine Iff.trans ?_ (bwrite_defined t.out buffer)
    constructor
    · intro ⟨_, h⟩
      obtain ⟨r, hr, -⟩ := Option.map_eq_some_iff.mp h
      exact ⟨r, hr⟩
    · intro ⟨r, hr⟩
      exact ⟨_, Option.map_eq_some_iff.mpr ⟨r, hr, rfl⟩⟩
  | packet channel packet => exact ⟨fun _ => trivial, fun _ => ⟨_, rfl⟩⟩
  | send n => exact ⟨fun _ => trivial, fun _ => ⟨_, rfl⟩⟩

theorem along_of_exec {t u : Traffic} {acts : List OutAct} (h : exec outStep t acts = some u) :
    Along outStep Room t acts := by
  induction acts generalizing t with
  | nil => trivial
  | cons a acts ih =>
    obtain ⟨t', ht, h⟩ := Option.bind_eq_some_iff.mp h
    refine ⟨(outStep_defined t a).mp ⟨t', ht⟩, ?_⟩
    intro v hv
    rw [Option.mem_def, ht] at hv
    cases hv
    exact ih h

/-! ### The loop of the server -/

/-- What `select` and `read` find at the two local sockets of a channel pair: not
ready, an error, or a packet; and the result of `send` for it. -/
structure LocalSockets where
  rtpCh : ℕ
  rtcpCh : ℕ
  rtp : Option (Option Bytes)
  rtcp : Option (Option Bytes)
  send : Option ℕ

/-- What arrives from the client: nothing, the end of the connection, an error or too
much, or bytes for which `RTSP_handler` writes replies and says whether an
invalid message follows. -/
inductive Arrival where
  | quiet
  | closed
  | failed
  | handled (replies : List Bytes) (invalid : Bool)

/-- `send_reply (500, NULL, rtsp)`. -/
def serverError (cseq : ℤ) : Bytes := Reply.render ⟨500, cseq, el⟩

/-- `RTSP_send`, and the reply and the result of `rtsp_server` if it fails. -/
def sendOrFail (cseq : ℤ) (n : Option ℕ) (t : Traffic) : Option (Option ℤ × Traffic) :=
  if (t.out.RTSP_send n).1 < 0 then
    ((outStep t (.send n)).bind fun t => outStep t (.bwrite (serverError cseq))).map fun t =>
      (some errGeneric, t)
  else (outStep t (.send n)).map fun t => (none, t)

/-- One turn of the loop over the local sockets: RTCP goes first. -/
def relay (cseq : ℤ) (l : LocalSockets) (t : Traffic) : Option (Option ℤ × Traffic) :=
  match l.rtcp, l.rtp with
  | some none, _ | none, some none | none, none => some (none, t)
  | some (some packet), _ =>
    (outStep t (.packet l.rtcpCh packet)).bind fun t => sendOrFail cseq l.send t
  | none, some (some packet) =>
    (outStep t (.packet l.rtpCh packet)).bind fun t => sendOrFail cseq l.send t

/-- The loop goes on as long as `out_buffer` is empty. -/
def relayAll (cseq : ℤ) : List LocalSockets → Traffic → Option (ℤ × Traffic)
  | [], t => some (0, t)
  | l :: ls, t =>
    if t.out.outSize = 0 then
      (relay cseq l t).bind fun (rc, t) =>
        match rc with
        | some rc => some (rc, t)
        | none => relayAll cseq ls t
    else some (0, t)

/-- `rtsp_server`: `write` is the result of `send` if the socket is writable. -/
def rtsp_server (cseq : ℤ) (write : Option (Option ℕ)) (arrival : Arrival)
    (locals : List LocalSockets) (t : Traffic) : Option (ℤ × Traffic) :=
  let first : Option (Option ℤ × Traffic) :=
    match write with
    | none => some (none, t)
    | some n => sendOrFail cseq n t
  first.bind fun (rc, t) =>
    match rc, arrival with
    | some rc, _ => some (rc, t)
    | none, .quiet => relayAll cseq locals t
    | none, .closed => some (errConnectionClose, t)
    | none, .failed => (outStep t (.bwrite (serverError cseq))).map fun t => (errGeneric, t)
    | none, .handled replies invalid =>
      (exec outStep t (replies.map .bwrite)).bind fun t =>
        if invalid then some (0, t) else relayAll cseq locals t

/-- The buffer changes by the three kinds of acts only. -/
def ByActs (t t' : Traffic) : Prop := ∃ acts, exec outStep t acts = some t'

theorem ByActs.refl (t : Traffic) : ByActs t t := ⟨[], rfl⟩

theorem ByActs.trans {t u v : Traffic} (h : ByActs t u) (h' : ByActs u v) : ByActs t v := by
  obtain ⟨as, ha⟩ := h
  obtain ⟨bs, hb⟩ := h'
  exact ⟨as ++ bs, exec_append ha hb⟩

theorem ByActs.one {t u : Traffic} {a : OutAct} (h : outStep t a = some u) : ByActs t u :=
  ⟨[a], by rw [exec_cons, h]; rfl⟩

theorem sendOrFail_acts {cseq : ℤ} {n : Option ℕ} {t t' : Traffic} {rc : Option ℤ}
    (h : sendOrFail cseq n t = some (rc, t')) : ByActs t t' := by
  unfold sendOrFail at h
  split at h
  · obtain ⟨u, hu, he⟩ := Option.map_eq_some_iff.mp h
    cases he
    obtain ⟨v, hv, hu⟩ := Option.bind_eq_some_iff.mp hu
    exact (ByActs.one hv).trans (ByActs.one hu)
  · obtain ⟨u, hu, he⟩ := Option.map_eq_some_iff.mp h
    cases he
    exact ByActs.one hu

theorem relay_acts {cseq : ℤ} {l : LocalSockets} {t t' : Traffic} {rc : Option ℤ}
    (h : relay cseq l t = some (rc, t')) : ByActs t t' := by
  unfold relay at h
  split at h
  · cases h
    exact ByActs.refl _
  · cases h
    exact ByActs.refl _
  · cases h
    exact ByActs.refl _
  · obtain ⟨u, hu, h⟩ := Option.bind_eq_some_iff.mp h
    exact (ByActs.one hu).trans (sendOrFail_acts h)
  · obtain ⟨u, hu, h⟩ := Option.bind_eq_some_iff.mp h
    exact (ByActs.one hu).trans (sendOrFail_acts h)

theorem relayAll_acts {cseq : ℤ} {ls : List LocalSockets} {t t' : Traffic} {rc : ℤ}
    (h : relayAll cseq ls t = some (rc, t')) : ByActs t t' := by
  induction ls generalizing t with
  | nil =>
    cases h
    exact ByActs.refl _
  | cons l ls ih =>
    unfold relayAll at h
    split at h
    · obtain ⟨⟨rc', u⟩, hu, h⟩ := Option.bind_eq_some_iff.mp h
      have hfirst := relay_acts hu
      cases rc' with
      | some rc' =>
        cases h
        exact hfirst
      | none => exact hfirst.trans (ih h)
    · cases h
      exact ByActs.refl _

/-- A call of `rtsp_server` is a run of replies, packets and calls of `RTSP_send`. -/
theorem rtsp_server_acts {cseq : ℤ} {write : Option (Option ℕ)} {arrival : Arrival}
    {locals : List LocalSockets} {t t' : Traffic} {rc : ℤ}
    (h : rtsp_server cseq write arrival locals t = some (rc, t')) : ByActs t t' := by
  unfold rtsp_server at h
  obtain ⟨⟨rc₁, u⟩, hfirst, h⟩ := Option.bind_eq_some_iff.mp h
  have hwrite : ByActs t u := by
    cases write with
    | none =>
      cases hfirst
      exact ByActs.refl _
    | some n => exact sendOrFail_acts hfirst
  refine hwrite.trans ?_
  cases rc₁ with
  | some rc₁ =>
    cases h
    exact ByActs.refl _
  | none =>
    cases arrival with
    | quiet => exact relayAll_acts h
    | closed =>
      cases h
      exact ByActs.refl _
    | failed =>
      obtain ⟨v, hv, he⟩ := Option.map_eq_some_iff.mp h
      cases he
      exact ByActs.one hv
    | handled replies invalid =>
      obtain ⟨v, hv, h⟩ := Option.bind_eq_some_iff.mp h
      refine ByActs.trans ⟨_, hv⟩ ?_
      cases invalid with
      | true =>
        cases h
        exact ByActs.refl _
      | false => exact relayAll_acts h

/-! ### The stream -/

/-- A run keeps to `out_buffer`, and the stream with it, iff no reply on the way fills
the buffer to its last byte. -/
theorem stream_intact (proto : RTSPProto) (acts : List OutAct) :
    (∃ t, exec outStep (Traffic.init proto) acts = some t ∧ Intact t) ↔
      Along outStep Room (Traffic.init proto) acts := by
  constructor
  · intro ⟨t, h, _⟩
    exact along_of_exec h
  · intro h
    have hstep : ∀ t a (as : List OutAct), StreamInv t → Room t a →
        ∃ t', outStep t a = some t' ∧ StreamInv t' := by
      intro t a _ hi hroom
      obtain ⟨t', ht⟩ := (outStep_defined t a).mpr hroom
      exact ⟨t', ht, hi.step ht⟩
    obtain ⟨t, ht, hi⟩ := @Along.run _ _ _ _ (fun t _ => StreamInv t) hstep _ _ h (StreamInv.init proto)
    exact ⟨t, ht, hi.intact⟩

theorem replies_fill {t : Traffic} {bs : List Bytes}
    (hfit : t.out.outSize + bs.flatten.length < outBufferSize) {as : List OutAct} {u : Traffic}
    (h : exec outStep t (bs.map .bwrite ++ as) = some u) :
    ∃ v, v.out.outSize = t.out.outSize + bs.flatten.length ∧ exec outStep v as = some u := by
  induction bs generalizing t with
  | nil => exact ⟨t, rfl, h⟩
  | cons b bs ih =>
    rw [List.flatten_cons, List.length_append] at hfit
    obtain ⟨v, hv, h⟩ := Option.bind_eq_some_iff.mp h
    obtain ⟨r, hr, rfl⟩ := Option.map_eq_some_iff.mp hv
    unfold OutBuffer.bwrite at hr
    rw [if_neg (by omega), dif_pos (by omega)] at hr
    cases hr
    obtain ⟨v, hv, hu⟩ := ih (by dsimp only; omega) h
    refine ⟨v, ?_, hu⟩
    rw [hv, List.flatten_cons, List.length_append]
    exact Nat.add_assoc _ _ _

/-- 221 rejected requests of a client that does not read: the last reply ends with
the last byte of `out_buffer`, and its zero is written behind it. -/
theorem replies_overrun :
    ¬ ∀ (proto : RTSPProto) (acts : List OutAct),
      ∃ t, exec outStep (Traffic.init proto) acts = some t ∧ Intact t := by
  intro h
  obtain ⟨t, ht, -⟩ := h .tcp
    ((List.replicate 206 (Reply.render ⟨400, 0, el⟩) ++
      List.replicate 14 (Reply.render ⟨400, 10, el⟩)).map .bwrite ++
        [.bwrite (Reply.render ⟨400, 10, el⟩)])
  have hlen : (List.replicate 206 (Reply.render ⟨400, 0, el⟩) ++
      List.replicate 14 (Reply.render ⟨400, 10, el⟩)).flatten.length = 8154 := by
    have h0 : (Reply.render ⟨400, 0, el⟩).length = 37 := by decide +kernel
    have h10 : (Reply.render ⟨400, 10, el⟩).length = 38 := by decide +kernel
    rw [List.flatten_append, List.length_append, List.length_flatten, List.length_flatten,
      List.map_replicate, List.map_replicate, List.sum_replicate_nat, List.sum_replicate_nat, h0, h10]
  obtain ⟨v, hv, hu⟩ := replies_fill (by rw [hlen]; decide) ht
  have hroom := (along_of_exec hu).1
  have h10 : (Reply.render ⟨400, 10, el⟩).length = 38 := by decide +kernel
  apply hroom
  rw [hv, hlen, h10]
  rfl

end Fenice.Rtsp
