import Fenice.Lib.Run
import Fenice.Rtcp.Send
import Fenice.Rtp.EndOfStream

/-!
# When RTCP is sent (rtcp/RTCP_handler.c, schedule/schedule_do.c, schedule/schedule_stop.c)

An entry of `sched` that the scheduler thread visits, with what RTCP needs of its session. How
many packets `RTP_send_packet` gives to `RTP_sendto`, and what it returns, is an input.
-/

namespace Fenice.Rtcp
open Fenice.Run

/-- How `select` on `rtcp_fd_out` ends. -/
inductive Select where
  | failed | timeout | writable
  deriving DecidableEq

/-- What a packet has from outside of the session: the time of day, and the bytes between the
fields. -/
structure Moment where
  ntpTimestampH : Word
  ntpTimestampL : Word
  rtpTimestamp : Word
  fill : Word
  deriving DecidableEq

/-- `RTP_session`, as far as RTCP is concerned, and its entry in `sched`; `out` are the first
`rtcp_outsize` bytes of `rtcp_outbuffer`. -/
structure Reporter where
  ssrc : Word
  pktCount : ℕ := 0
  octetCount : ℕ := 0
  out : Bytes := []
  pause : Bool := true
  started : Bool := false
  isMulticastDad : Bool
  valid : Bool := true
  present : Bool := true
  deriving DecidableEq

/-- An `unsigned int` in memory. -/
def hostWord (n : ℕ) : Word :=
  ⟨n.toUInt8, (n / 256).toUInt8, (n / 65536).toUInt8, (n / 16777216).toUInt8⟩

def Reporter.call (s : Reporter) (type : SendType) (m : Moment) : Call where
  type := type
  ssrc := s.ssrc
  ntpTimestampH := m.ntpTimestampH
  ntpTimestampL := m.ntpTimestampL
  rtpTimestamp := m.rtpTimestamp
  pktCount := hostWord s.pktCount
  octetCount := hostWord s.octetCount
  fill := m.fill

/-- What happens to RTCP in a run. A call of `RTCP_handler` finds that `counted` packets have been
counted so far, and builds a report or does not. -/
inductive Event where
  | queued (p : Bytes)
  | handed (data : Bytes)
  | handler (counted : ℕ) (built : Bool) (sel : Select)
  | stopped
  | destroyed (outsize : ℕ)
  deriving DecidableEq

/-- `counted` is `pkt_count`, if an `unsigned int` had no end. -/
structure Reports where
  session : Reporter
  counted : ℕ := 0
  log : List Event := []

/-- A visit of `schedule_do`: whether a packet is due, what `RTP_sendto` has done with the packets
of `RTP_send_packet` and their sizes, and what that has returned. -/
structure Visit where
  due : Bool
  moment : Moment
  select : Select
  sendto : List (ℕ × Bool)
  res : ℤ
  live : Bool
  deriving DecidableEq

/-- `schedule_start` and `schedule_resume` are called for PLAY, `schedule_remove` for TEARDOWN or
when the connection is closed. -/
inductive Act where
  | start
  | resume
  | pause
  | remove
  | visit (v : Visit)
  deriving DecidableEq

/-- How many packets a visit counts. -/
def Visit.packets (v : Visit) : ℕ := (v.sendto.filter Prod.snd).length

namespace Reports

/-- After SETUP. -/
def init (ssrc : Word) (isMulticastDad : Bool) : Reports := { session := { ssrc, isMulticastDad } }

def note (e : Event) (st : Reports) : Reports := { st with log := st.log ++ [e] }

variable (name : Bytes)

/-- `RTCP_send_packet`. -/
def send (type : SendType) (m : Moment) (st : Reports) : Reports :=
  let c := st.session.call type m
  { st with
    session := { st.session with out := RTCP_send_packet name st.session.out c }
    log := st.log ++
      if st.session.out.length + (pkt name c).length ≤ rtcpBufferSize then [.queued (pkt name c)]
      else [] }

/-- `RTP_sendto` for what is queued; its result makes no difference. -/
def flush (st : Reports) : Reports :=
  { st.note (.handed st.session.out) with session := { st.session with out := [] } }

/-- `pkt_count % 20 == 0`. -/
def reportDue (st : Reports) : Bool := st.session.pktCount % 20 = 0

def report (m : Moment) (st : Reports) : Reports :=
  (st.send name (if st.session.pktCount = 0 then .RR else .SR) m).send name .SDES m

def RTCP_handler (m : Moment) (sel : Select) (st : Reports) : ℤ × Reports :=
  let st := st.note (.handler st.counted st.reportDue sel)
  if st.reportDue then
    let st := st.report name m
    match sel with
    | .failed => (Rtp.errGeneric, st)
    | .timeout => (Mediainfo.errNoerror, st)
    | .writable => (Mediainfo.errNoerror, if 0 < st.session.out.length then st.flush else st)
  else (Mediainfo.errNoerror, st)

/-- The statistics that `RTP_send_packet` keeps. -/
def count (sendto : List (ℕ × Bool)) (st : Reports) : Reports :=
  let sent := sendto.filter Prod.snd
  { st with
    session := { st.session with
      pktCount := (st.session.pktCount + sent.length) % 2 ^ 32
      octetCount := (st.session.octetCount + (sent.map Prod.fst).sum) % 2 ^ 32 }
    counted := st.counted + sent.length }

def schedule_stop (m : Moment) (st : Reports) : Reports :=
  let st := { st.note .stopped with session := { st.session with pause := true, started := false } }
  (st.send name .SR m).send name .BYE m

/-- What `schedule_do` does for a session that plays. -/
def play (v : Visit) (st : Reports) : Reports :=
  let st := (st.RTCP_handler name v.moment v.select).2.count v.sendto
  if Rtp.stops v.live v.res then st.schedule_stop name v.moment else st

/-- `RTP_session_destroy`. -/
def destroy (st : Reports) : Reports :=
  { st.note (.destroyed st.session.out.length) with session := { st.session with present := false } }

def visit (v : Visit) (st : Reports) : Reports :=
  if st.session.valid then
    if !st.session.pause && v.due then st.play name v else st
  else if st.session.present && st.session.isMulticastDad then st.destroy
  else st

/-- An action on the session of the entry, as long as it is there. -/
def step (st : Reports) : Act → Option Reports
  | .visit v => some (st.visit name v)
  | .start =>
    if st.session.valid then
      some { st with session := { st.session with pause := false, started := true } }
    else none
  | .resume =>
    if st.session.valid && st.session.started && st.session.pause then
      some { st with session := { st.session with pause := false } }
    else none
  | .pause =>
    if st.session.valid then some { st with session := { st.session with pause := true } }
    else none
  | .remove =>
    if st.session.valid then some { st with session := { st.session with valid := false } }
    else none

end Reports

/-! ### What is queued and what is sent -/

/-- The bytes that have been queued, and those that went to `RTP_sendto`. -/
def queued (log : List Event) : Bytes :=
  log.flatMap fun
    | .queued p => p
    | _ => []

def handed (log : List Event) : Bytes :=
  log.flatMap fun
    | .handed data => data
    | _ => []

/-- A report whose packets could be written at once, or one that could not, or a stop, which
writes nothing. -/
def Event.outcome : Event → Option Bool
  | .handler _ true sel => some (sel = .writable)
  | .stopped => some false
  | _ => none

/-- The last one of the reports and stops has been written. -/
def Written (log : List Event) : Prop := (log.filterMap Event.outcome).getLast? ≠ some false

instance (log : List Event) : Decidable (Written log) := by
  unfold Written; infer_instance

/-- Nothing is left in `rtcp_outbuffer` when the session is destroyed. -/
def HandsOver (log : List Event) : Prop :=
  ∀ i n, log[i]? = some (.destroyed n) → n = 0 ∧ handed (log.take i) = queued (log.take i)

/-- Every packet that has been queued was handed over, or is still there; it is still there unless
the last report or stop was written. -/
structure QueueInv (st : Reports) : Prop where
  balance : queued st.log = handed st.log ++ st.session.out
  empty : st.session.out = [] ↔ Written st.log

/-- The action is the visit at which `schedule_do` destroys the session. -/
def Destroys (st : Reports) : Act → Prop
  | .visit _ =>
    st.session.valid = false ∧ st.session.present = true ∧ st.session.isMulticastDad = true
  | _ => False

instance (st : Reports) (a : Act) : Decidable (Destroys st a) :=
  match a with
  | .visit _ => inferInstanceAs (Decidable (_ ∧ _ ∧ _))
  | .start | .resume | .pause | .remove => isFalse id

section Log

variable {log : List Event}

theorem queued_append (l : List Event) : queued (log ++ l) = queued log ++ queued l :=
  List.flatMap_append

theorem handed_append (l : List Event) : handed (log ++ l) = handed log ++ handed l :=
  List.flatMap_append

theorem written_append {l : List Event} (h : ∀ e ∈ l, e.outcome = none) :
    Written (log ++ l) ↔ Written log := by
  have hl : l.filterMap Event.outcome = [] := List.filterMap_eq_nil_iff.mpr h
  rw [Written, List.filterMap_append, hl, List.append_nil, Written]

theorem written_concat {e : Event} {b : Bool} (h : e.outcome = some b) :
    Written (log ++ [e]) ↔ b = true := by
  rw [Written, List.filterMap_append, List.filterMap_cons_some h, List.filterMap_nil,
    List.getLast?_concat]
  cases b <;> simp

theorem handsOver_append {l : List Event} (h : ∀ n, .destroyed n ∉ l) :
    HandsOver (log ++ l) ↔ HandsOver log := by
  constructor
  · intro hlog i n hi
    have hlt := (List.getElem?_eq_some_iff.mp hi).1
    have := hlog i n (by rw [List.getElem?_append_left hlt]; exact hi)
    rw [List.take_append_of_le_length hlt.le] at this
    exact this
  · intro hlog i n hi
    rcases Nat.lt_or_ge i log.length with hlt | hge
    · rw [List.getElem?_append_left hlt] at hi
      rw [List.take_append_of_le_length hlt.le]
      exact hlog i n hi
    · rw [List.getElem?_append_right hge] at hi
      exact absurd (List.mem_of_getElem? hi) (h n)

theorem handsOver_destroyed (n : ℕ) :
    HandsOver (log ++ [.destroyed n]) ↔ HandsOver log ∧ n = 0 ∧ handed log = queued log := by
  constructor
  · intro hlog
    refine ⟨?_, ?_⟩
    · intro i k hi
      have hlt := (List.getElem?_eq_some_iff.mp hi).1
      have := hlog i k (by rw [List.getElem?_append_left hlt]; exact hi)
      rw [List.take_append_of_le_length hlt.le] at this
      exact this
    · have := hlog log.length n List.getElem?_concat_length
      rw [List.take_left] at this
      exact this
  · rintro ⟨hlog, hn, hsame⟩ i k hi
    rcases Nat.lt_or_ge i log.length with hlt | hge
    · rw [List.getElem?_append_left hlt] at hi
      rw [List.take_append_of_le_length hlt.le]
      exact hlog i k hi
    · have hi' := (List.getElem?_eq_some_iff.mp hi).1
      rw [List.length_append, List.length_singleton] at hi'
      obtain rfl : i = log.length := by omega
      rw [List.getElem?_concat_length] at hi
      cases hi
      rw [List.take_left]
      exact ⟨hn, hsame⟩

end Log

section Queue

variable {name : Bytes} {st : Reports} {m : Moment}

theorem send_cases (type : SendType) :
    (st.send name type m).session.out = st.session.out ∧ (st.send name type m).log = st.log ∨
      ∃ p, (st.send name type m).session.out = st.session.out ++ p ∧
        (st.send name type m).log = st.log ++ [.queued p] := by
  rcases Nat.lt_or_ge rtcpBufferSize
      (st.session.out.length + (pkt name (st.session.call type m)).length) with hfull | hfits
  · refine .inl ⟨?_, ?_⟩
    · exact if_neg (by omega)
    · simp only [Reports.send, if_neg (Nat.not_le.mpr hfull), List.append_nil]
  · refine .inr ⟨pkt name (st.session.call type m), ?_, ?_⟩
    · exact if_pos hfits
    · simp only [Reports.send, if_pos hfits]

theorem send_balance (type : SendType)
    (h : queued st.log = handed st.log ++ st.session.out) :
    queued (st.send name type m).log =
      handed (st.send name type m).log ++ (st.send name type m).session.out := by
  rcases @send_cases name st m type with ⟨hout, hlog⟩ | ⟨p, hout, hlog⟩
  · rw [hout, hlog, h]
  · rw [hout, hlog, queued_append, handed_append, h]
    simp [queued, handed]

theorem send_written (type : SendType) : Written (st.send name type m).log ↔ Written st.log := by
  rcases @send_cases name st m type with ⟨-, hlog⟩ | ⟨p, -, hlog⟩
  · rw [hlog]
  · rw [hlog]
    refine written_append ?_
    intro e he
    rw [List.mem_singleton] at he
    rw [he]
    rfl

theorem pkt_short {c : Call} (h : c.type ≠ .SDES) :
    0 < (pkt name c).length ∧ (pkt name c).length ≤ rtcpBufferSize := by
  cases ht : c.type with
  | SDES => exact absurd ht h
  | _ => simp [pkt, ht, header, headerSR, headerBYE, Word.bytes, rtcpBufferSize]

/-- Once something is queued it stays, and a packet other than a description is queued if nothing
else is. -/
theorem send_out (type : SendType) (h : st.session.out ≠ [] ∨ type ≠ .SDES) :
    (st.send name type m).session.out ≠ [] := by
  rcases eq_or_ne st.session.out [] with hnil | hne
  · have htype : type ≠ .SDES := h.resolve_left (not_not.mpr hnil)
    obtain ⟨hpos, hle⟩ := @pkt_short name (st.session.call type m) htype
    have hout : (st.send name type m).session.out =
        st.session.out ++ pkt name (st.session.call type m) := by
      refine if_pos ?_
      rw [hnil]
      simpa using hle
    rw [hout, hnil, List.nil_append]
    exact List.ne_nil_of_length_pos hpos
  · rcases @send_cases name st m type with ⟨hout, -⟩ | ⟨p, hout, -⟩
    · rw [hout]
      exact hne
    · rw [hout]
      exact List.append_ne_nil_of_left_ne_nil hne p

theorem report_out : (st.report name m).session.out ≠ [] := by
  refine send_out _ (.inl (send_out _ (.inr ?_)))
  split <;> simp

theorem report_balance (h : queued st.log = handed st.log ++ st.session.out) :
    queued (st.report name m).log =
      handed (st.report name m).log ++ (st.report name m).session.out :=
  send_balance _ (send_balance _ h)

theorem report_written : Written (st.report name m).log ↔ Written st.log :=
  (send_written _).trans (send_written _)

theorem note_balance {e : Event} (hq : queued [e] = []) (hh : handed [e] = [])
    (h : queued st.log = handed st.log ++ st.session.out) :
    queued (st.note e).log = handed (st.note e).log ++ (st.note e).session.out := by
  rw [Reports.note, queued_append, handed_append, hq, hh, List.append_nil, List.append_nil, h]

theorem flush_inv (h : queued st.log = handed st.log ++ st.session.out)
    (hw : Written st.log) : QueueInv st.flush := by
  refine ⟨?_, ?_⟩
  · rw [Reports.flush, Reports.note, queued_append, handed_append, h]
    simp [queued, handed]
  · refine iff_of_true rfl ((written_append ?_).mpr hw)
    intro e he
    rw [List.mem_singleton] at he
    rw [he]
    rfl

theorem handler_cases (sel : Select) :
    st.reportDue = false ∧
        (st.RTCP_handler name m sel).2 = st.note (.handler st.counted false sel) ∨
      st.reportDue = true ∧ (st.RTCP_handler name m sel).2 =
        (let reported := (st.note (.handler st.counted true sel)).report name m
        if sel = .writable then reported.flush else reported) := by
  cases hdue : st.reportDue with
  | false =>
    refine .inl ⟨rfl, ?_⟩
    have hnoted : (st.note (.handler st.counted false sel)).reportDue = false := hdue
    simp only [Reports.RTCP_handler, hdue, hnoted, Bool.false_eq_true, if_false]
  | true =>
    refine .inr ⟨rfl, ?_⟩
    have hnoted : (st.note (.handler st.counted true sel)).reportDue = true := hdue
    have hout := @report_out name (st.note (.handler st.counted true sel)) m
    simp only [Reports.RTCP_handler, hdue, hnoted, if_true]
    cases sel with
    | failed => rfl
    | timeout => rfl
    | writable => exact if_pos (List.length_pos_of_ne_nil hout)

/-- A call of `RTCP_handler` leaves nothing behind if it builds a report that can be written. -/
theorem handler_inv (h : QueueInv st) (sel : Select) :
    QueueInv (st.RTCP_handler name m sel).2 := by
  rcases @handler_cases name st m sel with ⟨-, hst⟩ | ⟨-, hst⟩
  · rw [hst]
    refine ⟨note_balance rfl rfl h.balance, h.empty.trans (written_append ?_).symm⟩
    intro e he
    rw [List.mem_singleton] at he
    rw [he]
    rfl
  · have hbalance := @report_balance name _ m
      (note_balance (e := .handler st.counted true sel) rfl rfl h.balance)
    have hwritten : Written (st.note (.handler st.counted true sel)).log ↔ sel = .writable := by
      rw [Reports.note, written_concat rfl, decide_eq_true_eq]
    rw [hst]
    by_cases hsel : sel = .writable
    · rw [if_pos hsel]
      exact flush_inv hbalance (report_written.mpr (hwritten.mpr hsel))
    · rw [if_neg hsel]
      refine ⟨hbalance, iff_of_false report_out ?_⟩
      rw [report_written, hwritten]
      exact hsel

theorem stop_inv (h : QueueInv st) : QueueInv (st.schedule_stop name m) := by
  refine ⟨send_balance _ (send_balance _ (note_balance rfl rfl h.balance)), ?_⟩
  refine iff_of_false (send_out _ (.inr (by simp))) ?_
  have hstop : ¬ Written (st.note .stopped).log := by
    rw [Reports.note, written_concat rfl]
    simp
  exact fun hw => hstop ((send_written _).mp ((send_written _).mp hw))

theorem play_inv (v : Visit) (h : QueueInv st) : QueueInv (st.play name v) := by
  have hcount : QueueInv ((st.RTCP_handler name v.moment v.select).2.count v.sendto) := by
    obtain ⟨hbalance, hempty⟩ := @handler_inv name st v.moment h v.select
    exact ⟨hbalance, hempty⟩
  unfold Reports.play
  dsimp only
  split
  · exact stop_inv hcount
  · exact hcount

end Queue

/-! ### Destruction -/

section Steps

variable {name : Bytes} {st t : Reports}

/-- No event of the list is a destruction. -/
def Spares (l : List Event) : Prop := ∀ n, Event.destroyed n ∉ l

theorem spares_nil : Spares [] := fun _ => List.not_mem_nil

theorem spares_append {l k : List Event} (hl : Spares l) (hk : Spares k) : Spares (l ++ k) := by
  intro n hn
  rcases List.mem_append.mp hn with hn | hn
  · exact hl n hn
  · exact hk n hn

/-- What has been logged since. -/
def Logs (st t : Reports) : Prop := ∃ l, t.log = st.log ++ l ∧ Spares l

theorem Logs.refl (st : Reports) : Logs st st := ⟨[], (List.append_nil _).symm, spares_nil⟩

theorem Logs.trans {u : Reports} (h : Logs st t) (h' : Logs t u) : Logs st u := by
  obtain ⟨l, hl, hs⟩ := h
  obtain ⟨k, hk, hs'⟩ := h'
  exact ⟨l ++ k, by rw [hk, hl, List.append_assoc], spares_append hs hs'⟩

theorem note_logs {e : Event} (h : ∀ n, e ≠ .destroyed n) : Logs st (st.note e) := by
  refine ⟨[e], rfl, ?_⟩
  intro n hn
  exact h n (List.mem_singleton.mp hn).symm

theorem send_logs (type : SendType) (m : Moment) : Logs st (st.send name type m) := by
  rcases @send_cases name st m type with ⟨-, hlog⟩ | ⟨p, -, hlog⟩
  · exact ⟨[], by rw [hlog, List.append_nil], spares_nil⟩
  · exact ⟨[.queued p], hlog, by intro n hn; simp at hn⟩

theorem flush_logs : Logs st st.flush := note_logs (by simp)

theorem handler_logs (m : Moment) (sel : Select) : Logs st (st.RTCP_handler name m sel).2 := by
  rcases @handler_cases name st m sel with ⟨-, hst⟩ | ⟨-, hst⟩
  · rw [hst]
    exact note_logs (by simp)
  · have hreport : Logs st ((st.note (.handler st.counted true sel)).report name m) :=
      (note_logs (by simp)).trans ((send_logs _ m).trans (send_logs _ m))
    rw [hst]
    dsimp only
    split
    · exact hreport.trans flush_logs
    · exact hreport

theorem play_logs (v : Visit) : Logs st (st.play name v) := by
  have hcount : Logs st ((st.RTCP_handler name v.moment v.select).2.count v.sendto) :=
    handler_logs v.moment v.select
  unfold Reports.play
  dsimp only
  split
  · refine hcount.trans ?_
    have hstop : ∀ u : Reports, Logs u (u.schedule_stop name v.moment) := fun u =>
      (note_logs (by simp)).trans ((send_logs _ _).trans (send_logs _ _))
    exact hstop _
  · exact hcount

theorem step_cases {a : Act} (h : st.step name a = some t) :
    Destroys st a ∧ t = st.destroy ∨
      ¬ Destroys st a ∧ Logs st t ∧ (QueueInv st → QueueInv t) := by
  cases a with
  | visit v =>
    cases h
    unfold Reports.visit
    cases hvalid : st.session.valid with
    | true =>
      refine .inr ⟨?_, ?_⟩
      · rintro ⟨hnot, -⟩
        rw [hvalid] at hnot
        cases hnot
      · rw [if_pos rfl]
        split
        · exact ⟨play_logs v, play_inv v⟩
        · exact ⟨.refl st, id⟩
    | false =>
      rw [if_neg Bool.false_ne_true]
      split
      · rename_i hthere
        rw [Bool.and_eq_true] at hthere
        exact .inl ⟨⟨hvalid, hthere.1, hthere.2⟩, rfl⟩
      · rename_i hnot
        refine .inr ⟨?_, .refl st, id⟩
        rintro ⟨-, hpresent, hdad⟩
        exact hnot (by rw [hpresent, hdad]; rfl)
  | _ =>
    refine .inr ⟨id, ?_⟩
    simp only [Reports.step, Option.ite_none_right_eq_some] at h
    obtain ⟨-, hst⟩ := h
    cases hst
    exact ⟨⟨[], (List.append_nil _).symm, spares_nil⟩, fun hi => ⟨hi.balance, hi.empty⟩⟩

theorem destroy_inv (h : QueueInv st) : QueueInv st.destroy := by
  refine ⟨note_balance rfl rfl h.balance, h.empty.trans (written_append ?_).symm⟩
  intro e he
  rw [List.mem_singleton] at he
  rw [he]
  rfl

/-- A session is destroyed only when the last report or stop has been written. -/
def WrittenFirst (st : Reports) (a : Act) : Prop := Destroys st a → Written st.log

instance (st : Reports) (a : Act) : Decidable (WrittenFirst st a) := by
  unfold WrittenFirst; infer_instance

theorem step_handsOver {a : Act} (hi : QueueInv st) (h : st.step name a = some t) :
    QueueInv t ∧ (HandsOver t.log ↔ HandsOver st.log ∧ WrittenFirst st a) := by
  rcases step_cases h with ⟨hdestroys, rfl⟩ | ⟨hnot, ⟨l, hl, hspares⟩, hinv⟩
  · refine ⟨destroy_inv hi, ?_⟩
    have hlog : st.destroy.log = st.log ++ [.destroyed st.session.out.length] := rfl
    rw [hlog, handsOver_destroyed, List.length_eq_zero_iff, hi.empty]
    refine and_congr_right fun _ => ⟨fun hw _ => hw.1, fun hw => ?_⟩
    have hout := hi.empty.mpr (hw hdestroys)
    have hbalance := hi.balance
    rw [hout, List.append_nil] at hbalance
    exact ⟨hw hdestroys, hbalance.symm⟩
  · refine ⟨hinv hi, ?_⟩
    rw [hl, handsOver_append hspares]
    exact ⟨fun hh => ⟨hh, fun hd => absurd hd hnot⟩, And.left⟩

-- induction on the actions
theorem run_handsOver {as : List Act} (hi : QueueInv st)
    (h : exec (Reports.step name) st as = some t) :
    HandsOver t.log ↔ HandsOver st.log ∧ Along (Reports.step name) WrittenFirst st as := by
  induction as generalizing st with
  | nil =>
    cases h
    exact (and_iff_left trivial).symm
  | cons a as ih =>
    obtain ⟨u, hu, hrest⟩ := Option.bind_eq_some_iff.mp h
    obtain ⟨hui, hstep⟩ := step_handsOver hi hu
    rw [ih hui hrest, hstep, and_assoc]
    refine and_congr_right fun _ => and_congr_right fun _ => ?_
    constructor
    · intro halong v hv
      obtain rfl : u = v := Option.some.inj (hu.symm.trans hv)
      exact halong
    · intro halong
      exact halong u hu

theorem init_queueInv (ssrc : Word) (isMulticastDad : Bool) :
    QueueInv (.init ssrc isMulticastDad) :=
  ⟨rfl, iff_of_true rfl (show Written [] by decide)⟩

/-- In a run the packets that are queued have all been handed over when the session is destroyed
exactly if no session is destroyed behind a stop, or behind a report that could not be written,
without another report that could. -/
theorem handed_over_iff {ssrc : Word} {isMulticastDad : Bool} {as : List Act}
    (h : exec (Reports.step name) (.init ssrc isMulticastDad) as = some st) :
    HandsOver st.log ↔ Along (Reports.step name) WrittenFirst (.init ssrc isMulticastDad) as := by
  rw [run_handsOver (init_queueInv ssrc isMulticastDad) h]
  exact and_iff_right fun i n hi => nomatch hi

/-- A visit that gives `n` packets of 1000 bytes to `RTP_sendto`. -/
def sending (n : ℕ) (res : ℤ) : Act :=
  let zero : Word := ⟨0, 0, 0, 0⟩
  .visit ⟨true, ⟨zero, zero, zero, zero⟩, .writable, List.replicate n (1000, true), res, false⟩

theorem handed_over_torn_down :
    HandsOver ((exec (Reports.step [104]) (.init ⟨0, 0, 0, 1⟩ true)
      [.start, sending 1 0, .remove, sending 0 0]).get (by decide)).log :=
  (handed_over_iff (Option.some_get _).symm).mpr (by decide)

/-- The stream ends, and with it the session. -/
theorem bye_forgotten :
    ¬ ∀ (name : Bytes) (ssrc : Word) (isMulticastDad : Bool) (as : List Act) (st : Reports),
      exec (Reports.step name) (.init ssrc isMulticastDad) as = some st → HandsOver st.log := by
  intro hall
  have hlost := hall [104] ⟨0, 0, 0, 1⟩ true
    [.start, sending 1 0, sending 0 (-8), .remove, sending 0 0] _
    (Option.some_get (by decide)).symm
  exact absurd (hlost 8 40 (by decide)).1 (by decide)

end Steps

/-! ### How often a report is built -/

/-- The calls of `RTCP_handler`: what had been counted, and whether a report was built. -/
def calls (log : List Event) : List (ℕ × Bool) :=
  log.filterMap fun
    | .handler counted built _ => some (counted, built)
    | _ => none

/-- Between two reports that follow one another, no call of `RTCP_handler` comes 20 packets behind
the first one. -/
def KeepsPace (log : List Event) : Prop :=
  ∀ xs ys zs m n, calls log = xs ++ (m, true) :: ys ++ (n, true) :: zs →
    (∀ c ∈ ys, c.2 = false) → ∀ c ∈ ys, c.1 < m + 20

/-- The visit does not take `pkt_count` past a multiple of 20, unless it ends at one. -/
def EndsAtMultiple (st : Reports) : Act → Prop
  | .visit v =>
    ∀ j < v.packets, 0 < j → (st.session.pktCount + j) % 2 ^ 32 % 20 = 0 →
      (st.session.pktCount + v.packets) % 2 ^ 32 % 20 = 0
  | _ => True

instance (st : Reports) (a : Act) : Decidable (EndsAtMultiple st a) :=
  match a with
  | .visit _ => inferInstanceAs (Decidable (∀ j < _, _ → _))
  | .start | .resume | .pause | .remove => isTrue trivial

/-- The number of a packet with which `pkt_count` comes to a multiple of 20. -/
def Multiple (n : ℕ) : Prop := n % 2 ^ 32 % 20 = 0

/-- The calls that follow a report, up to the next one, come less than 20 packets behind it. -/
def Paced (l : List (ℕ × Bool)) : Prop :=
  ∀ xs m ys zs, l = xs ++ (m, true) :: ys ++ zs → (∀ c ∈ ys, c.2 = false) → ∀ c ∈ ys, c.1 < m + 20

/-- Behind the last report no multiple of 20 has been reached, or `pkt_count` is one. -/
structure PaceInv (st : Reports) : Prop where
  count : st.session.pktCount = st.counted % 2 ^ 32
  paced : Paced (calls st.log)
  last : ∀ xs m ys, calls st.log = xs ++ (m, true) :: ys → (∀ c ∈ ys, c.2 = false) →
    Multiple m ∧ m ≤ st.counted ∧
      ((∀ n, m < n → n ≤ st.counted → ¬ Multiple n) ∨ Multiple st.counted)

section Pace

variable {name : Bytes} {st t : Reports}

theorem multiple_near {m c : ℕ} (hm : Multiple m) (hc : ∀ n, m < n → n ≤ c → ¬ Multiple n) :
    c < m + 20 := by
  by_contra hge
  unfold Multiple at hm hc
  have hrange : m % 2 ^ 32 < 2 ^ 32 := Nat.mod_lt _ (by decide)
  rcases Nat.lt_or_ge (m % 2 ^ 32 + 20) (2 ^ 32) with hlt | hwrap
  · refine hc (m + 20) (by omega) (by omega) ?_
    rw [← Nat.mod_add_mod, Nat.mod_eq_of_lt hlt, Nat.add_mod_right, hm]
  -- the counter begins again at zero before
  · refine hc (m + (2 ^ 32 - m % 2 ^ 32)) (by omega) (by omega) ?_
    rw [← Nat.mod_add_mod, Nat.add_sub_cancel' hrange.le, Nat.mod_self]

theorem calls_append (l k : List Event) : calls (l ++ k) = calls l ++ calls k :=
  List.filterMap_append

theorem send_calls (type : SendType) (m : Moment) :
    calls (st.send name type m).log = calls st.log := by
  rcases @send_cases name st m type with ⟨-, hlog⟩ | ⟨p, -, hlog⟩
  · rw [hlog]
  · rw [hlog, calls_append]
    exact List.append_nil _

theorem flush_log : st.flush.log = st.log ++ [.handed st.session.out] := rfl

theorem handler_calls (m : Moment) (sel : Select) :
    calls (st.RTCP_handler name m sel).2.log = calls st.log ++ [(st.counted, st.reportDue)] := by
  rcases @handler_cases name st m sel with ⟨hdue, hst⟩ | ⟨hdue, hst⟩
  · rw [hst, hdue]
    exact calls_append _ _
  · have hreport : calls ((st.note (.handler st.counted true sel)).report name m).log =
        calls st.log ++ [(st.counted, true)] := by
      rw [Reports.report, send_calls, send_calls]
      exact calls_append _ _
    rw [hst, hdue]
    dsimp only
    split
    · rw [flush_log, calls_append, hreport]
      exact List.append_nil _
    · exact hreport

theorem handler_counts (m : Moment) (sel : Select) :
    (st.RTCP_handler name m sel).2.session.pktCount = st.session.pktCount ∧
      (st.RTCP_handler name m sel).2.counted = st.counted := by
  rcases @handler_cases name st m sel with ⟨-, hst⟩ | ⟨-, hst⟩
  · rw [hst]
    exact ⟨rfl, rfl⟩
  · have hreport : ∀ t : Reports, (t.report name m).session.pktCount = t.session.pktCount ∧
        (t.report name m).counted = t.counted := by
      intro t
      rw [Reports.report]
      exact ⟨rfl, rfl⟩
    rw [hst]
    dsimp only
    split
    · exact hreport _
    · exact hreport _

theorem split_concat {xs ys zs : List (ℕ × Bool)} {m n : ℕ} {b : Bool}
    (h : zs ++ [(n, b)] = xs ++ (m, true) :: ys) :
    (ys = [] ∧ n = m ∧ b = true) ∨ ∃ ws, ys = ws ++ [(n, b)] ∧ zs = xs ++ (m, true) :: ws := by
  rcases List.eq_nil_or_concat ys with rfl | ⟨ws, c, rfl⟩
  · obtain ⟨-, hlast⟩ := List.append_inj' h rfl
    simp only [List.cons.injEq, Prod.mk.injEq, and_true] at hlast
    exact .inl ⟨rfl, hlast⟩
  · rw [List.concat_eq_append, ← List.cons_append, ← List.append_assoc] at h
    obtain ⟨hzs, hlast⟩ := List.append_inj' h rfl
    simp only [List.cons.injEq, and_true] at hlast
    exact .inr ⟨ws, by rw [List.concat_eq_append, hlast], hzs⟩

theorem paced_concat {l : List (ℕ × Bool)} {x : ℕ × Bool} (h : Paced l)
    (hx : ∀ xs m ys, l ++ [x] = xs ++ (m, true) :: ys → (∀ c ∈ ys, c.2 = false) →
      ∀ c ∈ ys, c.1 < m + 20) : Paced (l ++ [x]) := by
  intro xs m ys zs hsplit hys
  rcases List.eq_nil_or_concat zs with rfl | ⟨ws, y, rfl⟩
  · exact hx xs m ys (by rw [hsplit, List.append_nil]) hys
  · rw [List.concat_eq_append, ← List.append_assoc] at hsplit
    obtain ⟨hl, -⟩ := List.append_inj' hsplit rfl
    exact h xs m ys ws hl hys

/-- After the call of `RTCP_handler`, no multiple has been passed since the last report. -/
theorem handler_pace (h : PaceInv st) (m : Moment) (sel : Select) {xs ys : List (ℕ × Bool)}
    {r : ℕ} (hsplit : calls (st.RTCP_handler name m sel).2.log = xs ++ (r, true) :: ys)
    (hys : ∀ c ∈ ys, c.2 = false) :
    Multiple r ∧ r ≤ st.counted ∧ (∀ c ∈ ys, c.1 < r + 20) ∧
      ∀ n, r < n → n ≤ st.counted → ¬ Multiple n := by
  have hdue : st.reportDue = true ↔ Multiple st.counted := by
    rw [Reports.reportDue, decide_eq_true_eq, h.count, Multiple]
  rw [handler_calls] at hsplit
  rcases split_concat hsplit with ⟨rfl, rfl, hbuilt⟩ | ⟨ws, rfl, hlog⟩
  · refine ⟨hdue.mp hbuilt, le_rfl, ?_, ?_⟩
    · intro c hc
      cases hc
    · intro n hlt hle
      omega
  · have hws : ∀ c ∈ ws, c.2 = false := fun c hc => hys c (List.mem_append_left _ hc)
    have hnot : st.reportDue = false := hys (st.counted, st.reportDue) (by simp)
    obtain ⟨hr, hle, hquiet | hmult⟩ := h.last xs r ws hlog hws
    · refine ⟨hr, hle, ?_, hquiet⟩
      intro c hc
      rcases List.mem_append.mp hc with hc | hc
      · exact h.paced xs r ws [] (by rw [hlog, List.append_nil]) hws c hc
      · rw [List.mem_singleton] at hc
        rw [hc]
        exact multiple_near hr hquiet
    · rw [hdue.mpr hmult] at hnot
      cases hnot

theorem PaceInv.of_calls (h : PaceInv st) (hcalls : calls t.log = calls st.log)
    (hcount : t.session.pktCount = st.session.pktCount) (hcounted : t.counted = st.counted) :
    PaceInv t := by
  refine ⟨?_, ?_, ?_⟩
  · rw [hcount, hcounted, h.count]
  · rw [hcalls]
    exact h.paced
  · rw [hcalls, hcounted]
    exact h.last

theorem play_pace (h : PaceInv st) {v : Visit} (hg : EndsAtMultiple st (.visit v)) :
    PaceInv (st.play name v) := by
  have hcounts := @handler_counts name st v.moment v.select
  have hplayed : PaceInv ((st.RTCP_handler name v.moment v.select).2.count v.sendto) := by
    refine ⟨?_, ?_, ?_⟩
    · simp only [Reports.count, hcounts, h.count]
      omega
    · have hhandler := @handler_calls name st v.moment v.select
      have hpaced : Paced (calls st.log ++ [(st.counted, st.reportDue)]) := by
        refine paced_concat h.paced ?_
        intro xs r ys hsplit hys
        exact (handler_pace h v.moment v.select (hhandler.trans hsplit) hys).2.2.1
      rw [← hhandler] at hpaced
      exact hpaced
    · intro xs r ys hsplit hys
      obtain ⟨hr, hle, -, hquiet⟩ := handler_pace h v.moment v.select hsplit hys
      have hcounted : ((st.RTCP_handler name v.moment v.select).2.count v.sendto).counted =
          st.counted + v.packets := by
        simp only [Reports.count, hcounts, Visit.packets]
      rw [hcounted]
      refine ⟨hr, by omega, ?_⟩
      by_cases hend : Multiple (st.counted + v.packets)
      · exact .inr hend
      · refine .inl ?_
        intro n hlt hn hmult
        rcases Nat.lt_or_ge st.counted n with hnew | hold
        · have hne : n ≠ st.counted + v.packets := by
            rintro rfl
            exact hend hmult
          have hpass := hg (n - st.counted) (by omega) (by omega)
          simp only [h.count, Nat.mod_add_mod, Nat.add_sub_cancel' hnew.le] at hpass
          exact hend (hpass hmult)
        · exact hquiet n hlt hold hmult
  unfold Reports.play
  dsimp only
  split
  · have hcalls : ∀ u : Reports, calls (u.schedule_stop name v.moment).log = calls u.log := by
      intro u
      rw [Reports.schedule_stop, send_calls, send_calls, Reports.note, calls_append]
      exact List.append_nil _
    exact hplayed.of_calls (hcalls _) rfl rfl
  · exact hplayed

theorem step_pace {a : Act} (h : PaceInv st) (hg : EndsAtMultiple st a)
    (hst : st.step name a = some t) : PaceInv t := by
  cases a with
  | visit v =>
    cases hst
    unfold Reports.visit
    split
    · split
      · exact play_pace h hg
      · exact h
    · split
      · refine h.of_calls ?_ rfl rfl
        rw [Reports.destroy, Reports.note, calls_append]
        exact List.append_nil _
      · exact h
  | _ =>
    simp only [Reports.step, Option.ite_none_right_eq_some] at hst
    obtain ⟨-, hst⟩ := hst
    cases hst
    exact h.of_calls rfl rfl rfl

theorem init_pace (ssrc : Word) (isMulticastDad : Bool) :
    PaceInv (.init ssrc isMulticastDad) := by
  refine ⟨rfl, ?_, ?_⟩
  · intro xs m ys zs hsplit
    simp [Reports.init, calls] at hsplit
  · intro xs m ys hsplit
    simp [Reports.init, calls] at hsplit

/-- A visit that passes a multiple of 20 and does not end at one comes 20 packets behind the last
report, and the next call of `RTCP_handler` builds none; so it is as long as `pkt_count` does not
begin again at zero. -/
theorem passed_multiple {v : Visit} {m c : ℕ} (hc : st.session.pktCount = c) (hm : m % 20 = 0)
    (hle : m ≤ c) (hend : c + v.packets < 2 ^ 32) (hg : ¬ EndsAtMultiple st (.visit v)) :
    m + 20 ≤ c + v.packets ∧ (c + v.packets) % 2 ^ 32 % 20 ≠ 0 := by
  simp only [EndsAtMultiple, not_forall, hc] at hg
  obtain ⟨j, hj, hpos, hpass, hnot⟩ := hg
  rw [show (c + j) % 2 ^ 32 = c + j from Nat.mod_eq_of_lt (by omega)] at hpass
  exact ⟨by omega, hnot⟩

/-- As long as no visit takes `pkt_count` past a multiple of 20 without ending at one, the reports
keep pace with the packets. -/
theorem reports_keep_pace {ssrc : Word} {isMulticastDad : Bool} {as : List Act}
    (h : GuardedRun (Reports.step name) EndsAtMultiple (.init ssrc isMulticastDad) as st) :
    KeepsPace st.log := by
  have hinv : PaceInv st :=
    h.invariant (fun _ _ _ hi hg hs => step_pace hi hg hs) (init_pace ssrc isMulticastDad)
  intro xs ys zs m n hsplit hys
  exact hinv.paced xs m ys _ hsplit hys

theorem reports_keep_pace_two : ∃ st, exec (Reports.step [104]) (.init ⟨0, 0, 0, 1⟩ true)
    [.start, sending 10 0, sending 10 0, sending 10 0] = some st ∧ KeepsPace st.log := by
  refine ⟨_, (Option.some_get (by decide)).symm, ?_⟩
  exact reports_keep_pace (.of_allowed (by decide) (Option.some_get (by decide)).symm)

/-- Frames of 30 packets: the second call of `RTCP_handler` builds no report, the third one does. -/
theorem report_missed :
    ¬ ∀ (name : Bytes) (ssrc : Word) (isMulticastDad : Bool) (as : List Act) (st : Reports),
      exec (Reports.step name) (.init ssrc isMulticastDad) as = some st → KeepsPace st.log := by
  intro hall
  have hpace := hall [104] ⟨0, 0, 0, 1⟩ true
    [.start, sending 30 0, sending 30 0, sending 0 0] _ (Option.some_get (by decide)).symm
  have hlate := hpace [] [(30, false)] [] 0 60 (by decide) (by decide) (30, false) (by simp)
  exact absurd hlate (by decide)

end Pace

end Fenice.Rtcp
