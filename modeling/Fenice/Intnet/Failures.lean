import Fenice.Intnet.Neighbours
import Fenice.Mediainfo.DescrList

/-!
# Presentations that are gone

The functions that change the stream do not look at the result of `enum_media`. When it fails,
`*d` is the address of a descriptor that is no longer allocated.
-/

namespace Fenice.Mediainfo
open Fenice.Linked

variable {c c' : Cache} {call : CacheCall} {res : ℤ}

/-- The descriptor that is found for the call, whose address `enum_media` hands out, is freed when
it fails. -/
theorem enum_media_released (h : c.enum_media call = some (.error res, c')) :
    ∃ r last c₁, c.locate call.object call.new = some (r, last, c₁) ∧ c'.memory.get r = none := by
  obtain ⟨⟨r, last, c₁⟩, hlocate, h⟩ := Option.bind_eq_some_iff.mp h
  obtain ⟨cell, -, h⟩ := Option.bind_eq_some_iff.mp h
  obtain ⟨result, -, h⟩ := Option.bind_eq_some_iff.mp h
  refine ⟨r, last, c₁, hlocate, ?_⟩
  cases result with
  | ok d => cases h
  | error res' =>
    obtain ⟨dropped, hdrop, hc⟩ := Option.map_eq_some_iff.mp h
    cases hc
    cases last with
    | none =>
      obtain ⟨first, -, hdrop⟩ := Option.bind_eq_some_iff.mp hdrop
      obtain ⟨head, -, rfl⟩ := Option.map_eq_some_iff.mp hdrop
      exact Memory.get_put_self _ _ _
    | some l =>
      obtain ⟨cl, -, hdrop⟩ := Option.bind_eq_some_iff.mp hdrop
      obtain ⟨cr, -, rfl⟩ := Option.map_eq_some_iff.mp hdrop
      exact Memory.get_put_self _ _ _

end Fenice.Mediainfo

namespace Fenice.Intnet
open Fenice.CString Fenice.Ladder Fenice.Mediainfo

inductive Change where
  | down
  | up
  | half
  deriving DecidableEq

/-- The functions that change the stream of a session. -/
inductive Adaptation where
  | rate (c : Codec) (change : Change)
  | downgradeL16
  | halfL16
  | priorityDecrease
  | priorityIncrease
  deriving DecidableEq

namespace Adaptation

/-- A call; `later` is what is on the disk if it calls `enum_media` once more. -/
def run : Adaptation → Found → Found → World → Option (ℤ × World)
  | rate c .down => c.downgrade
  | rate c .up => c.upgrade
  | rate c .half => c.half
  | downgradeL16 => fun found _ w => downgrade_L16 found w
  | halfL16 => fun found _ w => half_L16 found w
  | priorityDecrease => fun found _ w => w.priority_decrease found
  | priorityIncrease => fun found _ w => w.priority_increase found

/-- The bit rates a function tries. -/
def speeds : Adaptation → Option (Codec × (ℤ → List ℤ))
  | rate c .down => some (c, c.downSpeeds)
  | rate c .up => some (c, c.upSpeeds)
  | rate c .half => some (c, c.halfSpeeds)
  | _ => none

/-- The change of priority it ends in. -/
def priority : Adaptation → Found → World → Option (ℤ × World)
  | rate _ .up | priorityIncrease => fun found w => w.priority_increase found
  | _ => fun found w => w.priority_decrease found

theorem run_eq (a : Adaptation) (found later : Found) (w : World) :
    a.run found later w =
      match a.speeds with
      | some (c, speeds) => w.changeRate c.name speeds (a.priority later) found
      | none => a.priority found w := by
  cases a with
  | rate c change => cases c <;> cases change <;> rfl
  | _ => rfl

/-- A call of `enum_media` that the function makes fails: the first one, or the one it makes when
it has found none of its bit rates. -/
def CallFails (a : Adaptation) (found later : Found) (w : World) : Prop :=
  found.isError = true ∨
    match a.speeds with
    | some (c, speeds) =>
      ∃ r ∈ w.meList found, r.2.searchRates c.name (speeds r.2.bitrate) r.1 = none ∧
        later.isError = true
    | none => False

instance (a : Adaptation) (found later : Found) (w : World) :
    Decidable (a.CallFails found later w) := by
  unfold CallFails
  cases a.speeds <;> infer_instance

variable {a : Adaptation} {found later : Found} {w : World}

theorem priority_none_iff (a : Adaptation) (found : Found) (w : World) :
    a.priority found w = none ↔ found.isError = true := by
  have hlist : w.meList found = none ↔ found.isError = true := by
    rcases World.meList_cases w found with ⟨herror, hnone⟩ | ⟨hok, list, u, hsome, -⟩
    · exact iff_of_true hnone herror
    · rw [hsome, hok]
      simp
  rw [← hlist]
  unfold priority
  split <;> simp only [World.priority_increase, World.priority_decrease, Option.map_eq_none_iff]

/-- The function reads a descriptor that has been freed exactly if a call of `enum_media` fails. -/
theorem run_none_iff (a : Adaptation) (found later : Found) (w : World) :
    a.run found later w = none ↔ a.CallFails found later w := by
  rw [run_eq, CallFails]
  cases a.speeds with
  | none => exact (a.priority_none_iff found w).trans (or_false _).symm.to_iff
  | some r =>
    obtain ⟨c, speeds⟩ := r
    rcases World.meList_cases w found with ⟨herror, hnone⟩ | ⟨hok, list, u, hsome, -⟩
    · simp only [World.changeRate, hnone, Option.bind_none, herror, true_or]
    · simp only [World.changeRate, hsome, Option.bind_some, hok, Bool.false_eq_true, false_or]
      cases hsearch : u.searchRates c.name (speeds u.bitrate) list with
      | some p => simp [hsearch]
      | none => simp [hsearch, a.priority_none_iff later u]

/-- When `enum_media` fails, the function returns and leaves the session and its media alone. -/
def Survives (a : Adaptation) (found later : Found) (w : World) : Prop :=
  a.CallFails found later w →
    ∃ res v, a.run found later w = some (res, v) ∧ v.session = w.session ∧ v.medias = w.medias

/-- No function survives a failure: it reads the list of a descriptor that is freed memory. -/
theorem survives_iff (a : Adaptation) (found later : Found) (w : World) :
    a.Survives found later w ↔ ¬ a.CallFails found later w := by
  constructor
  · intro hsurvives hfails
    obtain ⟨res, v, hrun, -⟩ := hsurvives hfails
    rw [(a.run_none_iff found later w).mpr hfails] at hrun
    cases hrun
  · intro hnot hfails
    exact absurd hfails hnot

/-- The SD file is removed while the session plays. -/
theorem removed_not_survived :
    ¬ ∀ (a : Adaptation) (found later : Found) (w : World), a.Survives found later w := by
  intro hall
  have hfails : (rate .MPA .down).CallFails (.error ERR_NOT_FOUND) .unchanged threeRates :=
    .inl rfl
  obtain ⟨res, v, hrun, -⟩ := hall _ _ _ _ hfails
  rw [(run_none_iff _ _ _ _).mpr hfails] at hrun
  cases hrun

end Adaptation

end Fenice.Intnet
