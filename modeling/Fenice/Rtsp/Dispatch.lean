import Fenice.Rtsp.StateMachine

/-!
# The table of the state machine

`RTSP_state_machine` as a table of what it does for each state and method, and
the inversion of a check.
-/

namespace Fenice.Rtsp
open Fenice.CString Fenice.Schedule

inductive Handler where
  | describe | options | setup | play | pause | teardown
  deriving DecidableEq

def Handler.run (w : World) (inp : Bytes) (rtsp : RTSPBuffer) (st : Streams) : Handler → Handled
  | .describe => RTSP_describe w inp rtsp st
  | .options => RTSP_options inp rtsp st
  | .setup => RTSP_setup w inp rtsp st
  | .play => RTSP_play w inp rtsp st
  | .pause => RTSP_pause w inp rtsp st
  | .teardown => RTSP_teardown w inp rtsp st

/-- A method is run, with a transition if it returns `ERR_NOERROR` or without, it is
answered with a status, or nothing happens. -/
inductive Cell where
  | move (x : Handler) (next : CurState)
  | stay (x : Handler)
  | refuse (status : ℕ)
  | silent
  deriving DecidableEq

def cell : CurState → Method → Cell
  | .init, .describe | .ready, .describe | .play, .describe => .stay .describe
  | .init, .teardown | .ready, .teardown | .play, .teardown => .stay .teardown
  | .init, .setup | .ready, .setup => .move .setup .ready
  | .init, .options => .move .options .init
  | .ready, .play => .move .play .play
  | .play, .pause => .move .pause .ready
  | .init, .play | .init, .pause | .ready, .pause => .refuse 455
  | .play, .play => .refuse 551
  | .ready, .options | .play, _ => .silent
  | .init, _ | .ready, _ => .refuse 501

/-- The method that a cell of the table runs. -/
def Cell.handler : Cell → Option Handler
  | .move x _ | .stay x => some x
  | _ => none

def Cell.exec (w : World) (inp : Bytes) (rtsp : RTSPBuffer) (st : Streams) :
    Cell → Option (RTSPBuffer × Streams)
  | .move x next => moveTo next (x.run w inp rtsp st)
  | .stay x => Rtsp.stay (x.run w inp rtsp st)
  | .refuse status => Rtsp.refuse status rtsp st
  | .silent => some (rtsp, st)

theorem state_machine_cell (w : World) (inp : Bytes) (rtsp : RTSPBuffer) (st : Streams)
    (method : Method) : RTSP_state_machine w inp rtsp st method =
      if scanSession inp = some none then refuse 454 rtsp st
      else match rtsp.sessionList with
        | none => some (rtsp, st)
        | some p => (cell p.curState method).exec w inp rtsp st := by
  unfold RTSP_state_machine
  congr 1
  cases rtsp.sessionList with
  | none => rfl
  | some p => cases h : p.curState <;> cases method <;> simp only [h] <;> rfl

theorem check_eq_some {α : Type} {rtsp : RTSPBuffer} {st : Streams} {x : Checks α}
    {k : α → Handled} {out : ℤ × RTSPBuffer × Streams} :
    check rtsp st x k = some out ↔
      (∃ r, x.run = some (.error r) ∧ out = (r.rc, send_reply r.status rtsp, st)) ∨
        ∃ a, x.run = some (.ok a) ∧ k a = some out := by
  unfold check
  split
  · rename_i h
    simp [h]
  · rename_i r h
    simp [h, eq_comm]
  · rename_i a h
    simp [h]

theorem check_ok {α : Type} {rtsp : RTSPBuffer} {st : Streams} {x : Checks α} {a : α}
    (h : x.run = some (.ok a)) (k : α → Handled) : check rtsp st x k = k a := by
  unfold check
  rw [h]

theorem check_error {α : Type} {rtsp : RTSPBuffer} {st : Streams} {x : Checks α} {r : Rejection}
    (h : x.run = some (.error r)) (k : α → Handled) :
    check rtsp st x k = some (r.rc, send_reply r.status rtsp, st) := by
  unfold check
  rw [h]

end Fenice.Rtsp
