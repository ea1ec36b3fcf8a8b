import Fenice.BufferPool.Delivery

/-!
# Sending RTP packets (RTP_send_packet.c)

The sessions that read one packet buffer. A session is listed once for each
consumer that `schedule_start` registers for it, next to that consumer in the
pool. One action is what lies between two calls under the buffer mutex: what
`OMSbuff_getreader` offers is sent at once, `OMSbuff_gotreader` follows. A
timestamp is a whole number of milliseconds.
-/

namespace Fenice.Rtp

open Fenice.BufferPool Fenice.Run

/-- The fields of the `media_entry` that go into a header; no clock rate is a
description without `MED_CLOCK_RATE`. -/
structure Media where
  payloadType : ℕ
  clockRate : Option ℕ
  deriving DecidableEq

def errGeneric : ℤ := -1

def msec2tick (mtime : ℕ) (me : Media) : ℤ :=
  match me.clockRate with
  | some rate => (rate * mtime / 1000 : ℕ)
  | none => errGeneric

structure RTPHeader where
  version : ℕ
  padding : ℕ
  extension : ℕ
  csrcLen : ℕ
  marker : ℕ
  payload : ℕ
  seqNo : ℕ
  timestamp : ℕ
  ssrc : ℕ
  deriving DecidableEq

/-- `reading`: between `OMSbuff_getreader` and `OMSbuff_gotreader`. -/
structure Session where
  startSeq : ℕ
  startRtptime : ℕ
  ssrc : ℕ
  currentMedia : Media
  reading : Bool
  sent : List (Packet × RTPHeader)
  deriving DecidableEq

/-- The header for a slot; both sums are cut to the width of their field. -/
def Session.header (s : Session) (firstts : ℤ) (slot : Packet) : RTPHeader where
  version := 2
  padding := 0
  extension := 0
  csrcLen := 0
  marker := slot.marker
  payload := s.currentMedia.payloadType
  seqNo := ((slot.slotSeq + s.startSeq - 1 : ℤ) % 2 ^ 16).toNat
  timestamp :=
    ((s.startRtptime + msec2tick slot.timestamp s.currentMedia - firstts : ℤ) % 2 ^ 32).toNat
  ssrc := s.ssrc

def Session.transmit (s : Session) (firstts : ℤ) : Option Packet → Session
  | none => s
  | some x => { s with reading := true, sent := s.sent ++ [(x, s.header firstts x)] }

structure Senders where
  pool : Pool
  sessions : List Session

def Senders.init (b : OMSBuffer) : Senders := ⟨.init b, []⟩

/-- The actions of a pool that `get_frame` and `OMSbuff_unref` are made of. -/
def IsOther : BufferPool.Act → Prop
  | .ref | .getreader _ | .gotreader _ | .read _ _ => False
  | _ => True

instance (a : BufferPool.Act) : Decidable (IsOther a) :=
  match a with
  | .ref | .getreader _ | .gotreader _ | .read .. => isFalse id
  | .getslot _ | .fill .. | .commit .. | .write .. | .unref _ | .drain _ => isTrue trivial

inductive Act where
  | other (a : {a : BufferPool.Act // IsOther a})
  | play (startSeq startRtptime ssrc : ℕ) (media : Media)
  | getreader (i : ℕ)
  | gotreader (i : ℕ)

def Senders.step (st : Senders) : Act → Option Senders
  | .other a => (st.pool.step a.1).map fun p => { st with pool := p }
  | .play startSeq startRtptime ssrc media =>
    (st.pool.step .ref).map fun p =>
      ⟨p, st.sessions ++ [⟨startSeq, startRtptime, ssrc, media, false, []⟩]⟩
  | .getreader i =>
    match st.sessions[i]?, st.pool.clients[i]? with
    | some session, some cl =>
      if session.reading then none
      else
        let next := OMSbuff.getreader st.pool.buffer cl.cons
        (st.pool.step (.getreader i)).map fun p =>
          ⟨p, st.sessions.set i (session.transmit next.2.firstts
            (next.1.map fun s => (st.pool.buffer.slots s).packet))⟩
    | _, _ => none
  | .gotreader i =>
    match st.sessions[i]? with
    | some session =>
      if session.reading then
        (st.pool.step (.gotreader i)).map fun p =>
          ⟨p, st.sessions.set i { session with reading := false }⟩
      else none
    | none => none

/-- The time of the next slot since the first one, -1 if there is none. -/
def nextTime (b : OMSBuffer) (c : OMSConsumer) : ℤ :=
  if 0 ≤ OMSbuff.nextts b c then OMSbuff.nextts b c - c.firstts else OMSbuff.nextts b c

/-- The loop of `RTP_send_packet`: on as long as the next slot has the time `sTime`. -/
def sendLoop (i : ℕ) (sTime : ℤ) : ℕ → Senders → Option Senders
  | 0, st => some st
  | fuel + 1, st =>
    (st.step (.getreader i)).bind fun st =>
      if (st.sessions[i]?.map Session.reading).getD false then
        (st.step (.gotreader i)).bind fun st =>
          match st.pool.clients[i]? with
          | none => none
          | some cl =>
            if nextTime st.pool.buffer cl.cons = -1 ∨ nextTime st.pool.buffer cl.cons ≠ sTime then
              some st
            else sendLoop i sTime fuel st
      else some st

/-- What `get_frame` does to the buffer, whether it succeeds, and its time. -/
structure Frame where
  acts : List {a : BufferPool.Act // IsOther a}
  ok : Bool
  sTime : ℤ

def RTP_send_packet (i : ℕ) (frame : Frame) (fuel : ℕ) (st : Senders) : Option Senders :=
  st.pool.clients[i]?.bind fun cl =>
    let next := OMSbuff.getreader st.pool.buffer cl.cons
    match next.1 with
    | none =>
      (exec Senders.step st (frame.acts.map .other)).bind fun st =>
        if frame.ok then sendLoop i frame.sTime fuel st else some st
    | some s => sendLoop i ((st.pool.buffer.slots s).timestamp - next.2.firstts) fuel st

/-- The condition on a step: that of the pool for what the step does to it. -/
def Guard (st : Senders) : Act → Prop
  | .other a => BufferPool.Guard st.pool a.1
  | .play .. => BufferPool.Guard st.pool .ref
  | .getreader i => BufferPool.Guard st.pool (.getreader i)
  | .gotreader i => BufferPool.Guard st.pool (.gotreader i)

instance (st : Senders) (a : Act) : Decidable (Guard st a) := by
  cases a <;> dsimp only [Guard] <;> infer_instance

/-! ### `RTP_send_packet` as a run -/

-- induction on the packets that may still be sent
theorem sendLoop_run (i : ℕ) (sTime : ℤ) (fuel : ℕ) (st : Senders) {t : Senders}
    (h : sendLoop i sTime fuel st = some t) : ∃ as, exec Senders.step st as = some t := by
  induction fuel generalizing st with
  | zero =>
    cases h
    exact ⟨[], rfl⟩
  | succ fuel ih =>
    simp only [sendLoop, Option.bind_eq_some_iff] at h
    obtain ⟨u, hget, h⟩ := h
    split at h
    · simp only [Option.bind_eq_some_iff] at h
      obtain ⟨v, hgot, h⟩ := h
      have hrun : ∀ as, exec Senders.step v as = some t →
          exec Senders.step st (.getreader i :: .gotreader i :: as) = some t := by
        intro as has
        rw [exec_cons, hget, Option.bind_some, exec_cons, hgot, Option.bind_some, has]
      split at h
      · cases h
      · split at h
        · cases h
          exact ⟨_, hrun [] rfl⟩
        · obtain ⟨as, has⟩ := ih v h
          exact ⟨_, hrun as has⟩
    · cases h
      exact ⟨[.getreader i], by rw [exec_cons, hget]; rfl⟩

theorem RTP_send_packet_run {i : ℕ} {frame : Frame} {fuel : ℕ} {st t : Senders}
    (h : RTP_send_packet i frame fuel st = some t) : ∃ as, exec Senders.step st as = some t := by
  unfold RTP_send_packet at h
  rw [Option.bind_eq_some_iff] at h
  obtain ⟨cl, -, h⟩ := h
  dsimp only at h
  split at h
  · rw [Option.bind_eq_some_iff] at h
    obtain ⟨u, hframe, h⟩ := h
    split at h
    · obtain ⟨as, has⟩ := sendLoop_run _ _ _ _ h
      exact ⟨_, exec_append hframe has⟩
    · cases h
      exact ⟨_, hframe⟩
  · exact sendLoop_run _ _ _ _ h

/-! ### What a pool action leaves alone -/

/-- The client has moved on no further, if it has not left. -/
structure Kept (cl cl' : Client) : Prop where
  first : cl'.first = cl.first
  reading : cl'.status = .reading →
    cl.status = .reading ∧ cl'.cons.firstts = cl.cons.firstts ∧ cl'.got = cl.got

theorem Kept.refl (cl : Client) : Kept cl cl := ⟨rfl, fun h => ⟨h, rfl, rfl⟩⟩

theorem kept_set {clients : List Client} {i j : ℕ} {cl c d : Client}
    (hi : clients[i]? = some cl) (hk : Kept cl c) (hj : (clients.set i c)[j]? = some d) :
    ∃ e, clients[j]? = some e ∧ Kept e d := by
  have hlt := (List.getElem?_eq_some_iff.mp hi).1
  by_cases hij : i = j
  · subst hij
    rw [List.getElem?_set_self hlt] at hj
    cases hj
    exact ⟨cl, hi, hk⟩
  · rw [List.getElem?_set_ne hij] at hj
    exact ⟨d, hj, .refl d⟩

theorem step_log {p p' : Pool} {a : BufferPool.Act} (h : p.step a = some p') :
    p.log <+: p'.log := by
  cases a <;> simp only [Pool.step] at h
  case getslot => cases h; exact List.prefix_rfl
  case fill =>
    obtain ⟨s, -, rfl⟩ := Option.map_eq_some_iff.mp h
    exact List.prefix_rfl
  case commit =>
    obtain ⟨s, -, h⟩ := Option.bind_eq_some_iff.mp h
    split at h
    · cases h
      exact List.prefix_append ..
    · cases h
  case write =>
    split at h
    · cases h
      exact List.prefix_append ..
    · cases h
      exact List.prefix_rfl
    · cases h
  case ref =>
    obtain ⟨r, -, rfl⟩ := Option.map_eq_some_iff.mp h
    exact List.prefix_rfl
  all_goals
    split at h
    · rename_i cl hcl
      grind [Pool.advance, Pool.consume]
    · cases h

theorem other_kept {p p' : Pool} {a : BufferPool.Act} (ha : IsOther a)
    (h : p.step a = some p') : p'.clients.length = p.clients.length ∧
      ∀ (j : ℕ) (d : Client), p'.clients[j]? = some d →
        ∃ e, p.clients[j]? = some e ∧ Kept e d := by
  have hsame : p'.clients = p.clients → p'.clients.length = p.clients.length ∧
      ∀ (j : ℕ) (d : Client), p'.clients[j]? = some d →
        ∃ e, p.clients[j]? = some e ∧ Kept e d := by
    intro he
    exact ⟨by rw [he], fun j d hd => ⟨d, by rw [← he]; exact hd, .refl d⟩⟩
  have hset : ∀ (i : ℕ) (cl c : Client), p.clients[i]? = some cl → c.first = cl.first →
      c.status ≠ .reading → p'.clients = p.clients.set i c →
      p'.clients.length = p.clients.length ∧
      ∀ (j : ℕ) (d : Client), p'.clients[j]? = some d →
        ∃ e, p.clients[j]? = some e ∧ Kept e d := by
    intro i cl c hi hf hst he
    refine ⟨by rw [he, List.length_set], fun j d hd => ?_⟩
    rw [he] at hd
    exact kept_set hi ⟨hf, fun h => absurd h hst⟩ hd
  cases a <;> simp only [IsOther] at ha <;> simp only [Pool.step] at h
  case getslot => cases h; exact hsame rfl
  case fill =>
    obtain ⟨s, -, rfl⟩ := Option.map_eq_some_iff.mp h
    exact hsame rfl
  case commit =>
    obtain ⟨s, -, h⟩ := Option.bind_eq_some_iff.mp h
    split at h
    · cases h
      exact hsame rfl
    · cases h
  case write =>
    split at h
    · cases h
      exact hsame rfl
    · cases h
      exact hsame rfl
    · cases h
  case unref i =>
    split at h
    · rename_i cl hcl
      split at h
      · split at h
        · cases h
          exact hset i cl { cl with status := .leaving p.buffer.lastSeq } hcl rfl (by simp) rfl
        · cases h
          exact hset i cl { cl with status := .gone } hcl rfl (by simp) rfl
      · cases h
    · cases h
  case drain i =>
    split at h
    · rename_i cl hcl
      split at h
      · rename_i last hlast
        split at h
        · rename_i s hs
          cases h
          exact hset i cl (cl.took p.buffer s) hcl rfl (by simp [Client.took, hlast]) rfl
        · cases h
          exact hset i cl { cl with status := .gone } hcl rfl (by simp) rfl
      · cases h
    · cases h

/-! ### The invariant of a session -/

/-- The packets sent are the stretch of the log that begins where the consumer joined. -/
structure SessionInv (log : List Packet) (cl : Client) (s : Session) : Prop where
  stretch : s.sent.map Prod.fst = (log.drop (cl.first - 1)).take s.sent.length
  headers : ∀ x₀ ∈ s.sent.head?, ∀ x ∈ s.sent, x.2 = s.header x₀.1.timestamp x.1
  firstts : cl.status = .reading →
    cl.cons.firstts = (s.sent.head?.map fun x => (x.1.timestamp : ℤ)).getD (-1)
  count : cl.status = .reading → s.sent.length = cl.got.length + s.reading.toNat

theorem SessionInv.kept {log log' : List Packet} {cl cl' : Client} {s : Session}
    (h : SessionInv log cl s) (hlog : log <+: log') (hk : Kept cl cl') :
    SessionInv log' cl' s where
  stretch := by
    obtain ⟨tail, rfl⟩ := hlog
    have hlen : s.sent.length ≤ (log.drop (cl.first - 1)).length := by
      have := congrArg List.length h.stretch
      rw [List.length_map, List.length_take] at this
      omega
    rw [hk.first, List.drop_append, List.take_append_of_le_length hlen, h.stretch]
  headers := h.headers
  firstts := by
    intro hst
    obtain ⟨hst', hts, -⟩ := hk.reading hst
    rw [hts, h.firstts hst']
  count := by
    intro hst
    obtain ⟨hst', -, hgot⟩ := hk.reading hst
    rw [hgot, h.count hst']

theorem SessionInv.transmit {log : List Packet} {cl : Client} {s : Session}
    (h : SessionInv log cl s) (hst : cl.status = .reading) (hread : s.reading = false)
    {b : OMSBuffer} {i : ℕ} (hsel : OMSbuff.select b cl.cons = some i)
    (hnext : log[cl.first - 1 + cl.got.length]? = some (b.slots i).packet) :
    SessionInv log { cl with cons := (OMSbuff.getreader b cl.cons).2 }
      (s.transmit (OMSbuff.getreader b cl.cons).2.firstts (some (b.slots i).packet)) := by
  have hcount : s.sent.length = cl.got.length := by simpa [hread] using h.count hst
  have hget : (OMSbuff.getreader b cl.cons).2 = if cl.cons.firstts = -1 then
      { cl.cons with firstts := (b.slots i).timestamp } else cl.cons := by
    simp only [OMSbuff.getreader, hsel]
  have hstretch : (s.sent.map Prod.fst) ++ [(b.slots i).packet] =
      (log.drop (cl.first - 1)).take (s.sent.length + 1) := by
    rw [Broadcast.take_drop_succ (hcount ▸ hnext), ← h.stretch]
  have hts := h.firstts hst
  cases hsent : s.sent with
  | nil =>
    have hfirst : (OMSbuff.getreader b cl.cons).2.firstts = (b.slots i).packet.timestamp := by
      rw [hsent] at hts
      simp [hget, hts, OMSSlot.packet]
    refine ⟨?_, ?_, fun _ => ?_, fun _ => ?_⟩
    · simpa [Session.transmit] using hstretch
    · simp only [Session.transmit, hsent, List.nil_append, List.head?_cons, List.mem_singleton,
        Option.mem_def, Option.some.injEq]
      rintro x₀ rfl x rfl
      rw [hfirst]
      rfl
    · simpa [Session.transmit, hsent] using hfirst
    · simp [Session.transmit, hcount]
  | cons x₀ rest =>
    have hfirst : (OMSbuff.getreader b cl.cons).2.firstts = x₀.1.timestamp := by
      rw [hsent] at hts
      have hne : cl.cons.firstts ≠ -1 := by
        simp only [List.head?_cons, Option.map_some, Option.getD_some] at hts
        omega
      simpa [hget, hne] using hts
    refine ⟨?_, ?_, fun _ => ?_, fun _ => ?_⟩
    · simpa [Session.transmit] using hstretch
    · intro y hy x hx
      simp only [Session.transmit, hsent, List.cons_append, List.head?_cons, Option.mem_def,
        Option.some.injEq] at hy
      subst hy
      simp only [Session.transmit, List.mem_append, List.mem_singleton] at hx
      rcases hx with hx | rfl
      · exact h.headers x₀ (by simp [hsent]) x hx
      · rw [hfirst]
        rfl
    · simpa [Session.transmit, hsent] using hfirst
    · simp [Session.transmit, hcount]

theorem SessionInv.took {log : List Packet} {cl : Client} {s : Session}
    (h : SessionInv log cl s) (hread : s.reading = true) (b : OMSBuffer) (i : ℕ) :
    SessionInv log (cl.took b i) { s with reading := false } where
  stretch := h.stretch
  headers := h.headers
  firstts := h.firstts
  count := by
    intro hst
    have hcount := h.count hst
    simp only [hread, Bool.toNat_true] at hcount
    simp [Client.took, hcount]

structure SendersInv (b : OMSBuffer) (st : Senders) : Prop where
  run : ∃ as, GuardedRun Pool.step BufferPool.Guard (Pool.init b) as st.pool
  length : st.sessions.length = st.pool.clients.length
  each : ∀ (i : ℕ) (s : Session) (cl : Client), st.sessions[i]? = some s →
    st.pool.clients[i]? = some cl → SessionInv st.pool.log cl s

theorem SendersInv.init (b : OMSBuffer) : SendersInv b (Senders.init b) where
  run := ⟨[], .nil _⟩
  length := rfl
  each := fun i s _ hs _ => by simp [Senders.init] at hs

section Steps

variable {n : ℕ} {b : OMSBuffer} {st : Senders}

theorem SendersInv.pool_step (h : SendersInv b st) {a : BufferPool.Act} {p : Pool}
    (hg : BufferPool.Guard st.pool a) (hp : st.pool.step a = some p) :
    ∃ as, GuardedRun Pool.step BufferPool.Guard (Pool.init b) as p := by
  obtain ⟨as, hrun⟩ := h.run
  exact ⟨_, hrun.snoc hg hp⟩

theorem SendersInv.offered (h : SendersInv b st) (hn : 2 ≤ n) (hb : OMSbuff.new n = some b)
    {i : ℕ} {cl : Client} (hcl : st.pool.clients[i]? = some cl) (hst : cl.status = .reading)
    (hsafe : ReadSafe st.pool.buffer cl.cons) :
    (OMSbuff.select st.pool.buffer cl.cons).map (fun s => (st.pool.buffer.slots s).packet) =
      st.pool.log[cl.first - 1 + cl.got.length]? := by
  obtain ⟨as, hrun⟩ := h.run
  obtain ⟨⟨ord, z, lo, hinv⟩, hr, -⟩ := run_recorded hn hb hrun
  exact hinv.offered hr hn (List.mem_of_getElem? hcl) hst hsafe

theorem SendersInv.set (h : SendersInv b st) {i : ℕ} {s : Session} {c : Client} {p : Pool}
    (hs : i < st.sessions.length) (hcl : i < st.pool.clients.length)
    (hrun : ∃ as, GuardedRun Pool.step BufferPool.Guard (Pool.init b) as p)
    (hlog : p.log = st.pool.log) (hclients : p.clients = st.pool.clients.set i c)
    (hi : SessionInv st.pool.log c s) : SendersInv b ⟨p, st.sessions.set i s⟩ where
  run := hrun
  length := by rw [hclients, List.length_set, List.length_set, h.length]
  each := by
    intro j t d ht hd
    rw [hclients] at hd
    dsimp only at ht ⊢
    rw [hlog]
    by_cases hij : i = j
    · subst hij
      rw [List.getElem?_set_self hs] at ht
      rw [List.getElem?_set_self hcl] at hd
      cases ht
      cases hd
      exact hi
    · rw [List.getElem?_set_ne hij] at ht hd
      exact h.each j t d ht hd

theorem SendersInv.other (h : SendersInv b st) {a : BufferPool.Act} (ha : IsOther a) {p : Pool}
    (hg : BufferPool.Guard st.pool a) (hp : st.pool.step a = some p) :
    SendersInv b { st with pool := p } := by
  obtain ⟨hlen, hkept⟩ := other_kept ha hp
  refine ⟨h.pool_step hg hp, h.length.trans hlen.symm, ?_⟩
  intro i s cl hs hcl
  obtain ⟨e, he, hk⟩ := hkept i cl hcl
  exact (h.each i s e hs he).kept (step_log hp) hk

theorem SendersInv.play (h : SendersInv b st) (startSeq startRtptime ssrc : ℕ) (media : Media)
    {p : Pool} (hg : BufferPool.Guard st.pool .ref) (hp : st.pool.step .ref = some p) :
    SendersInv b ⟨p, st.sessions ++ [⟨startSeq, startRtptime, ssrc, media, false, []⟩]⟩ := by
  have hrun := h.pool_step hg hp
  obtain ⟨⟨c, b'⟩, href, rfl⟩ := Option.map_eq_some_iff.mp hp
  have hts : c.firstts = -1 := by
    simp only [OMSbuff.ref] at href
    split at href
    · obtain ⟨_, -, he⟩ := Option.map_eq_some_iff.mp href
      cases he
      rfl
    · cases href
      rfl
  refine ⟨hrun, by simp [Pool.register, h.length], ?_⟩
  intro i s cl hs hcl
  simp only [Pool.register] at hcl ⊢
  by_cases hlt : i < st.sessions.length
  · rw [List.getElem?_append_left hlt] at hs
    rw [List.getElem?_append_left (h.length ▸ hlt)] at hcl
    exact h.each i s cl hs hcl
  · rw [List.getElem?_append_right (by omega)] at hs
    rw [List.getElem?_append_right (by have := h.length; omega), ← h.length] at hcl
    have hi : i - st.sessions.length = 0 := by
      have := (List.getElem?_eq_some_iff.mp hs).1
      simp only [List.length_singleton] at this
      omega
    rw [hi] at hs hcl
    cases hs
    cases hcl
    exact ⟨by simp, by simp, fun _ => by simpa using hts, fun _ => by simp⟩

theorem SendersInv.getreader (h : SendersInv b st) (hn : 2 ≤ n) (hb : OMSbuff.new n = some b)
    {i : ℕ} {t : Senders} (hg : Guard st (.getreader i))
    (hs : st.step (.getreader i) = some t) : SendersInv b t := by
  simp only [Senders.step] at hs
  split at hs
  · rename_i session cl hsession hcl
    split at hs
    · cases hs
    · rename_i hread
      obtain ⟨p, hp, rfl⟩ := Option.map_eq_some_iff.mp hs
      have hrun := h.pool_step (a := .getreader i) hg hp
      simp only [Pool.step, hcl] at hp
      split at hp
      · rename_i hst
        cases hp
        have hoff := h.offered hn hb hcl hst (hg cl hcl)
        refine h.set (List.getElem?_eq_some_iff.mp hsession).1
          (List.getElem?_eq_some_iff.mp hcl).1 hrun rfl rfl ?_
        cases hsel : OMSbuff.select st.pool.buffer cl.cons with
        | none =>
          simpa [OMSbuff.getreader, hsel, Session.transmit] using h.each i session cl hsession hcl
        | some k =>
          rw [hsel, Option.map_some] at hoff
          have hnext := (h.each i session cl hsession hcl).transmit hst (by simpa using hread)
            hsel hoff.symm
          have hfst : (OMSbuff.getreader st.pool.buffer cl.cons).1 = some k := by
            simp only [OMSbuff.getreader, hsel]
          rw [hfst]
          exact hnext
      · cases hp
  · cases hs

theorem SendersInv.gotreader (h : SendersInv b st) (hn : 2 ≤ n) (hb : OMSbuff.new n = some b)
    {i : ℕ} {t : Senders} (hg : Guard st (.gotreader i))
    (hs : st.step (.gotreader i) = some t) : SendersInv b t := by
  simp only [Senders.step] at hs
  split at hs
  · rename_i session hsession
    split at hs
    · rename_i hread
      obtain ⟨p, hp, rfl⟩ := Option.map_eq_some_iff.mp hs
      have hrun := h.pool_step (a := .gotreader i) hg hp
      simp only [Pool.step] at hp
      split at hp
      · rename_i cl hcl
        split at hp
        · rename_i hst
          cases hp
          have hinv := h.each i session cl hsession hcl
          have hoff := h.offered hn hb hcl hst (hg cl hcl)
          -- what is being read is in the log, so there is a slot to move behind
          have hlen : session.sent.length = cl.got.length + 1 := by
            simpa [hread] using hinv.count hst
          have hlog : cl.first - 1 + cl.got.length < st.pool.log.length := by
            have := congrArg List.length hinv.stretch
            simp only [List.length_map, List.length_take, List.length_drop] at this
            omega
          cases hsel : OMSbuff.select st.pool.buffer cl.cons with
          | none =>
            rw [hsel, Option.map_none, List.getElem?_eq_getElem hlog] at hoff
            cases hoff
          | some k =>
            have hadv : st.pool.advance i cl = st.pool.consume i cl k := by
              simp only [Pool.advance, hsel]
            rw [hadv] at hrun ⊢
            exact h.set (List.getElem?_eq_some_iff.mp hsession).1
              (List.getElem?_eq_some_iff.mp hcl).1 hrun rfl rfl (hinv.took hread _ _)
        · cases hp
      · cases hp
    · cases hs
  · cases hs

theorem SendersInv.step (h : SendersInv b st) (hn : 2 ≤ n) (hb : OMSbuff.new n = some b)
    {a : Act} {t : Senders} (hg : Guard st a) (hs : st.step a = some t) : SendersInv b t := by
  cases a with
  | other a =>
    obtain ⟨p, hp, rfl⟩ := Option.map_eq_some_iff.mp hs
    exact h.other a.2 hg hp
  | play startSeq startRtptime ssrc media =>
    obtain ⟨p, hp, rfl⟩ := Option.map_eq_some_iff.mp hs
    exact h.play startSeq startRtptime ssrc media hg hp
  | getreader i => exact h.getreader hn hb hg hs
  | gotreader i => exact h.gotreader hn hb hg hs

end Steps

theorem SendersInv.of_run {n : ℕ} {b : OMSBuffer} (hn : 2 ≤ n) (hb : OMSbuff.new n = some b)
    {as : List Act} {st : Senders}
    (h : GuardedRun Senders.step Guard (Senders.init b) as st) : SendersInv b st :=
  h.invariant (fun _ _ _ hi hg hs => hi.step hn hb hg hs) (.init b)

/-! ### Sequence numbers -/

/-- The packets are numbered from the announced `start_seq` on. -/
def Announced (s : Session) : Prop :=
  ∀ k x, s.sent[k]? = some x → x.2.seqNo = (s.startSeq + k) % 2 ^ 16

theorem SessionInv.sent_log {log : List Packet} {cl : Client} {s : Session}
    (h : SessionInv log cl s) {k : ℕ} {x : Packet × RTPHeader} (hx : s.sent[k]? = some x) :
    log[cl.first - 1 + k]? = some x.1 := by
  have hk := (List.getElem?_eq_some_iff.mp hx).1
  have := congrArg (fun l => l[k]?) h.stretch
  simp only [List.getElem?_map, hx, Option.map_some, List.getElem?_take_of_lt hk,
    List.getElem?_drop] at this
  exact this.symm

/-- Packet `k` carries the number of its slot, which is `k` behind that of the first. -/
theorem SessionInv.seqNo {log : List Packet} {cl : Client} {s : Session}
    (h : SessionInv log cl s) (hfirst : 0 < cl.first)
    (hnum : ∀ i x, log[i]? = some x → x.slotSeq = i + 1) {k : ℕ} {x : Packet × RTPHeader}
    (hx : s.sent[k]? = some x) : x.2.seqNo = (cl.first + k + s.startSeq - 1) % 2 ^ 16 := by
  have hseq := hnum _ _ (h.sent_log hx)
  obtain ⟨x₀, rest, hsent⟩ : ∃ x₀ rest, s.sent = x₀ :: rest := by
    cases hs : s.sent with
    | nil => simp [hs] at hx
    | cons x₀ rest => exact ⟨x₀, rest, rfl⟩
  rw [h.headers x₀ (by simp [hsent]) x (List.mem_of_getElem? hx)]
  simp only [Session.header]
  omega

/-- In every guarded run the packets of a session carry the announced numbers exactly if
its consumer joined at a slot whose number is 1 modulo 2^16. -/
theorem announced_numbers {n : ℕ} (hn : 2 ≤ n) {b : OMSBuffer} (hb : OMSbuff.new n = some b)
    {as : List Act} {st : Senders} (h : GuardedRun Senders.step Guard (Senders.init b) as st)
    {i : ℕ} {s : Session} {cl : Client} (hs : st.sessions[i]? = some s)
    (hcl : st.pool.clients[i]? = some cl) :
    Announced s ↔ s.sent = [] ∨ cl.first % 2 ^ 16 = 1 := by
  have hinv := SendersInv.of_run hn hb h
  obtain ⟨bs, hrun⟩ := hinv.run
  obtain ⟨-, hr, -⟩ := run_recorded hn hb hrun
  have hfirst := (hr.place cl (List.mem_of_getElem? hcl)).1
  have hi := hinv.each i s cl hs hcl
  constructor
  · intro ha
    cases hsent : s.sent with
    | nil => exact Or.inl rfl
    | cons x₀ rest =>
      have hx : s.sent[0]? = some x₀ := by simp [hsent]
      have hseq := hi.seqNo hfirst hr.numbered hx
      rw [ha 0 x₀ hx] at hseq
      exact Or.inr (by omega)
  · rintro (hnil | hone) k x hx
    · simp [hnil] at hx
    · rw [hi.seqNo hfirst hr.numbered hx]
      omega

/-- The milliseconds subtracted from a number of ticks make no difference. -/
def Level (rate t : ℕ) : Prop := (rate * t / 1000) % 2 ^ 32 = t % 2 ^ 32

instance (rate t : ℕ) : Decidable (Level rate t) := inferInstanceAs (Decidable (_ = _))

/-- Three packets for the first session of a buffer of two slots, then a second session. -/
def joinLate : List Act :=
  [.play 500 7000 1 ⟨96, some 90000⟩, .other ⟨.getslot true, trivial⟩,
    .other ⟨.commit 0 1, trivial⟩, .getreader 0, .gotreader 0, .other ⟨.getslot true, trivial⟩,
    .other ⟨.commit 40 1, trivial⟩, .getreader 0, .gotreader 0, .other ⟨.getslot true, trivial⟩,
    .other ⟨.commit 80 1, trivial⟩, .play 900 8000 2 ⟨96, some 90000⟩, .getreader 0, .gotreader 0,
    .getreader 1, .gotreader 1]

theorem joinLate_run : ∃ b st s cl, OMSbuff.new 2 = some b ∧
    GuardedRun Senders.step Guard (Senders.init b) joinLate st ∧ st.sessions[0]? = some s ∧
    st.pool.clients[0]? = some cl ∧ s.sent.length = 3 ∧ cl.first % 2 ^ 16 = 1 ∧
    s.currentMedia.clockRate = some 90000 ∧
    ∀ x ∈ st.pool.log[cl.first - 1]?, Level 90000 x.timestamp := by
  refine ⟨_, _, _, _, rfl, GuardedRun.of_allowed ?_ (rfl : exec Senders.step _ joinLate = _), rfl,
    rfl, rfl, rfl, rfl, ?_⟩
  · decide
  · intro x hx
    cases hx
    decide

theorem announced_numbers_first : ∃ b st s, OMSbuff.new 2 = some b ∧
    exec Senders.step (Senders.init b) joinLate = some st ∧ st.sessions[0]? = some s ∧
    s.sent.length = 3 ∧ Announced s := by
  obtain ⟨b, st, s, cl, hb, hrun, hs, hcl, hlen, hfirst, -⟩ := joinLate_run
  exact ⟨b, st, s, hb, hrun.exec_eq, hs, hlen,
    (announced_numbers le_rfl hb hrun hs hcl).mpr (Or.inr hfirst)⟩

theorem late_session_numbers :
    ¬ ∀ (n : ℕ) (b : OMSBuffer) (as : List Act) (st : Senders) (i : ℕ) (s : Session), 2 ≤ n →
      OMSbuff.new n = some b → exec Senders.step (Senders.init b) as = some st →
      st.sessions[i]? = some s → Announced s := by
  intro h
  exact absurd (h 2 _ joinLate _ 1 _ le_rfl rfl rfl rfl 0 _ rfl) (by decide)

/-! ### Timestamps -/

/-- The ticks of a clock of `rate` in the time from `t₀` to `t`. -/
def ticks (rate : ℕ) (t₀ t : ℕ) : ℤ := (rate * (t - t₀ : ℤ)) / 1000

/-- The first packet carries the announced `start_rtptime`, the others the media clock
since then, up to one tick. -/
def ClockFollows (rate : ℕ) (s : Session) : Prop :=
  ∀ x₀ ∈ s.sent.head?, x₀.2.timestamp = s.startRtptime % 2 ^ 32 ∧
    ∀ x ∈ s.sent, ∃ d : ℤ, -1 ≤ d ∧ d ≤ 1 ∧
      (x.2.timestamp : ℤ) = (s.startRtptime + ticks rate x₀.1.timestamp x.1.timestamp + d) % 2 ^ 32

theorem timestamp_eq {s : Session} {rate : ℕ} (hrate : s.currentMedia.clockRate = some rate)
    (f : ℕ) (x : Packet) : ((s.header f x).timestamp : ℤ) =
      (s.startRtptime + ((rate * x.timestamp / 1000 : ℕ) : ℤ) - f) % 2 ^ 32 := by
  simp only [Session.header, msec2tick, hrate]
  exact Int.toNat_of_nonneg (Int.emod_nonneg _ (by decide))

/-- Ticks counted from zero and ticks counted from `f` differ by those of `f`, up to one. -/
theorem ticks_split (rate f t : ℕ) : ∃ d : ℤ, 0 ≤ d ∧ d ≤ 1 ∧
    ((rate * t / 1000 : ℕ) : ℤ) = ticks rate f t + ((rate * f / 1000 : ℕ) : ℤ) + d := by
  refine ⟨((rate * t / 1000 : ℕ) : ℤ) - ticks rate f t - ((rate * f / 1000 : ℕ) : ℤ), ?_, ?_, ?_⟩
  all_goals
    unfold ticks
    rw [Int.mul_sub]
    push_cast
    generalize (rate : ℤ) * t = x
    generalize (rate : ℤ) * f = y
    omega

theorem announced_timestamps {n : ℕ} (hn : 2 ≤ n) {b : OMSBuffer} (hb : OMSbuff.new n = some b)
    {as : List Act} {st : Senders} (h : GuardedRun Senders.step Guard (Senders.init b) as st)
    {i : ℕ} {s : Session} {cl : Client} (hs : st.sessions[i]? = some s)
    (hcl : st.pool.clients[i]? = some cl) {rate : ℕ}
    (hrate : s.currentMedia.clockRate = some rate) :
    ClockFollows rate s ↔
      s.sent = [] ∨ ∀ x ∈ st.pool.log[cl.first - 1]?, Level rate x.timestamp := by
  have hinv := SendersInv.of_run hn hb h
  have hi := hinv.each i s cl hs hcl
  cases hsent : s.sent with
  | nil => simp [ClockFollows, hsent]
  | cons x₀ rest =>
    have hx : s.sent[0]? = some x₀ := by simp [hsent]
    have hlog : st.pool.log[cl.first - 1]? = some x₀.1 := hi.sent_log hx
    have hhead : s.sent.head? = some x₀ := by simp [hsent]
    have htime : ∀ x ∈ s.sent, (x.2.timestamp : ℤ) = (s.startRtptime +
        ((rate * x.1.timestamp / 1000 : ℕ) : ℤ) - x₀.1.timestamp) % 2 ^ 32 := by
      intro x hm
      rw [hi.headers x₀ hhead x hm, timestamp_eq hrate]
    have hfirst := htime x₀ (List.mem_of_getElem? hx)
    rw [hlog]
    constructor
    · intro hc
      refine Or.inr fun x hxl => ?_
      cases hxl
      have := (hc x₀ hhead).1
      unfold Level
      omega
    · rintro (hnil | hlevel)
      · cases hnil
      · have hl := hlevel x₀.1 rfl
        unfold Level at hl
        intro y hy
        rw [hhead] at hy
        cases hy
        refine ⟨by omega, fun x hm => ?_⟩
        obtain ⟨d, hd₀, hd₁, hd⟩ := ticks_split rate x₀.1.timestamp x.1.timestamp
        refine ⟨d, by omega, hd₁, ?_⟩
        rw [htime x hm, hd]
        omega

theorem announced_timestamps_first : ∃ b st s, OMSbuff.new 2 = some b ∧
    exec Senders.step (Senders.init b) joinLate = some st ∧ st.sessions[0]? = some s ∧
    s.sent.length = 3 ∧ ClockFollows 90000 s := by
  obtain ⟨b, st, s, cl, hb, hrun, hs, hcl, hlen, -, hrate, hlevel⟩ := joinLate_run
  exact ⟨b, st, s, hb, hrun.exec_eq, hs, hlen,
    (announced_timestamps le_rfl hb hrun hs hcl hrate).mpr (Or.inr hlevel)⟩

-- the first packet of the second session has the timestamp 8000 + 3600 - 40
theorem late_session_timestamps :
    ¬ ∀ (n : ℕ) (b : OMSBuffer) (as : List Act) (st : Senders) (i : ℕ) (s : Session) (rate : ℕ),
      2 ≤ n → OMSbuff.new n = some b → exec Senders.step (Senders.init b) as = some st →
      st.sessions[i]? = some s → s.currentMedia.clockRate = some rate → ClockFollows rate s := by
  intro h
  exact absurd (h 2 _ joinLate _ 1 _ 90000 le_rfl rfl rfl rfl rfl _ rfl).1 (by decide)

end Fenice.Rtp
