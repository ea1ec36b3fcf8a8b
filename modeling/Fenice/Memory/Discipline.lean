import Fenice.Lib.Ledger
import Fenice.Memory.MallocTable

/-!
# What the program owes the allocation table (src/en_xmalloc.c, include/fenice/en_xmalloc.h)

With `DEBUG_MALLOC` every block of `xmalloc`, `xcalloc` and `xstrdup` is registered, and
`xfree` aborts for any other pointer. `malloc` and `free` know nothing of the table. From a
program that gives every block back to the allocator that it has it from, the table is in
order after every call.
-/

namespace Fenice.Memory
open Fenice.Ledger Fenice.Probe

/-- What is registered of a block beside its address: `__FILE__`, `__LINE__` and its size. -/
structure Site where
  file : String
  line : ℤ
  size : ℕ
  deriving DecidableEq

/-- The table after the calls that were made; `none` stands for `abort`. -/
def tableAfter (site : List (Call Ptr) → Site) : List (Call Ptr) → Option MallocTable
  | [] => some MallocTable.init
  | c :: log => (tableAfter site log).bind fun s =>
    match c with
    | .xalloc p => debugging_malloc s ⟨p, (site log).file, (site log).line, (site log).size⟩
    | .xfree p => debugging_free s p
    | .alloc _ | .free _ | .realloc _ _ => some s

/-- The table has room for every block, and none that is released leaves a gap in it. -/
def TableFits (site : List (Call Ptr) → Site) : List (Call Ptr) → Prop
  | [] => True
  | .xalloc _ :: log => (tracked log).length + 1 < sz ∧ TableFits site log
  | .xfree p :: log =>
    (∀ s, tableAfter site log = some s → LeavesNoGap ⟨s, tracked log⟩ (.free p)) ∧
      TableFits site log
  | .alloc _ :: log | .free _ :: log | .realloc _ _ :: log => TableFits site log

/-- Every block goes back where it came from, no `xfree` aborts, and the counters tell how many
blocks are in use. -/
structure Disciplined (site : List (Call Ptr) → Site) (log : List (Call Ptr)) : Prop where
  paired : Paired log
  counted : ∃ s, tableAfter site log = some s ∧
    s.mallocCount - s.freeCount = (tracked log).length

variable {site : List (Call Ptr) → Site} {log : List (Call Ptr)} {owned : List Ptr}

theorem tableInv_after (hfresh : Fresh 0 log) (hpaired : Paired log) (hfits : TableFits site log) :
    ∃ s, tableAfter site log = some s ∧ TableInv ⟨s, tracked log⟩ := by
  induction log with
  | nil => exact ⟨_, rfl, .init⟩
  | cons c log ih =>
    cases c with
    | xalloc p =>
      obtain ⟨s, hs, hinv⟩ := ih hfresh.2.2 hpaired hfits.2
      have hnew : p ∉ tracked log :=
        fun hp => hfresh.2.1 ((tracked_sublist hfresh.2.2 hpaired).subset hp)
      let slot : Slot := ⟨p, (site log).file, (site log).line, (site log).size⟩
      have hslot : slot.ptr ≠ 0 := hfresh.1
      obtain ⟨s', hs', hinv'⟩ := hinv.malloc hslot hnew hfits.1
      refine ⟨s', ?_, hinv'⟩
      rw [tableAfter, hs]
      exact hs'
    | xfree p =>
      obtain ⟨s, hs, hinv⟩ := ih hfresh hpaired.2 hfits.2
      obtain ⟨s', hs', hinv'⟩ := hinv.free hpaired.1 (hfits.1 s hs)
      refine ⟨s', ?_, hinv'⟩
      rw [tableAfter, hs]
      exact hs'
    | alloc p =>
      obtain ⟨s, hs, hinv⟩ := ih hfresh.2.2 hpaired hfits
      refine ⟨s, ?_, hinv⟩
      rw [tableAfter, hs]
      rfl
    | free p =>
      obtain ⟨s, hs, hinv⟩ := ih hfresh hpaired.2 hfits
      refine ⟨s, ?_, ?_⟩
      · rw [tableAfter, hs]
        rfl
      · rw [tracked, List.erase_of_not_mem hpaired.1]
        exact hinv
    | realloc p q =>
      obtain ⟨s, hs, hinv⟩ := ih hfresh.2.2 hpaired.2 hfits
      refine ⟨s, ?_, ?_⟩
      · rw [tableAfter, hs]
        rfl
      · rw [tracked, List.erase_of_not_mem hpaired.1]
        exact hinv

/-! ### Blocks with homes of their own -/

/-- No entry has gone past its home. -/
def AtHome (t : ℕ → Slot) : Prop := ∀ x, (t x).ptr ≠ 0 → home (t x).ptr = x

section Homes

variable {t t' : ℕ → Slot} {s s' : MallocTable} {slot : Slot} {p : Ptr} {live : List Ptr}

theorem AtHome.update (h : AtHome t) (i : ℕ) (hslot : slot.ptr ≠ 0 → home slot.ptr = i) :
    AtHome (Function.update t i slot) := by
  intro x hx
  rcases eq_or_ne x i with rfl | hne
  · rw [Function.update_self] at hx ⊢
    exact hslot hx
  · rw [Function.update_of_ne hne] at hx ⊢
    exact h x hx

theorem AtHome.leavesNoGap (h : AtHome s.table) : LeavesNoGap ⟨s, live⟩ (.free p) := by
  intro i _ x _ hx0 _ hpasses
  rw [h x hx0, Passes, dist_self] at hpasses
  exact Nat.not_lt_zero _ hpasses

theorem AtHome.malloc (h : AtHome s.table) (hempty : (s.table (home slot.ptr)).ptr = 0)
    (hs : debugging_malloc s slot = some s') : AtHome s'.table := by
  have hposition : ptr_position s.table slot.ptr = some (home slot.ptr) := by
    rw [ptr_position, show sz = sz - 1 + 1 from rfl, positionLoop, if_pos hempty]
  rw [debugging_malloc, register_ptr] at hs
  split at hs
  · cases hs
  · rw [hposition] at hs
    cases hs
    exact h.update _ fun _ => rfl

theorem outerLoop_of_atHome (h : AtHome t) {fuel i : ℕ} (ht : outerLoop fuel t i = some t') :
    t' = t := by
  induction fuel generalizing i with
  | zero => cases ht
  | succ fuel ih =>
    rw [outerLoop] at ht
    split at ht
    · cases ht
      rfl
    · rename_i hi
      have hstays : innerLoop t (t i).ptr i sz (home (t i).ptr) = some none := by
        rw [h i hi, show sz = sz - 1 + 1 from rfl, innerLoop, if_neg hi, if_pos rfl]
      rw [hstays] at ht
      exact ih ht

theorem AtHome.free (h : AtHome s.table) (hs : debugging_free s p = some s') :
    AtHome s'.table := by
  rw [debugging_free] at hs
  split at hs
  · cases hs
  · obtain ⟨⟨found, s₁⟩, hun, hs⟩ := Option.bind_eq_some_iff.mp hs
    obtain ⟨i, -, hun⟩ := Option.bind_eq_some_iff.mp hun
    split at hun
    · cases hun
      cases hs
    · obtain ⟨t, hloop, he⟩ := Option.map_eq_some_iff.mp hun
      cases he
      cases hs
      have hhole : AtHome (Function.update s.table i { s.table i with ptr := 0 }) :=
        h.update i fun hne => absurd rfl hne
      rw [outerLoop_of_atHome hhole hloop]
      exact hhole

end Homes

theorem tableFits_of_homes (hfresh : Fresh 0 log) (hpaired : Paired log) (hroom : log.length < sz)
    (hhomes : ∀ p q, .xalloc p ∈ log → .xalloc q ∈ log → home p = home q → p = q) :
    TableFits site log ∧ ∀ s, tableAfter site log = some s → AtHome s.table := by
  induction log with
  | nil =>
    refine ⟨trivial, fun s hs => ?_⟩
    cases hs
    exact fun x hx => absurd rfl hx
  | cons c log ih =>
    have hroom' : log.length < sz := (Nat.lt_succ_self _).trans hroom
    have hhomes' : ∀ p q, .xalloc p ∈ log → .xalloc q ∈ log → home p = home q → p = q :=
      fun p q hp hq => hhomes p q (.tail _ hp) (.tail _ hq)
    cases c with
    | xalloc p =>
      obtain ⟨hfits, hat⟩ := ih hfresh.2.2 hpaired hroom' hhomes'
      have hlength : (tracked log).length ≤ log.length := length_tracked_le
      refine ⟨⟨(Nat.succ_le_succ hlength).trans_lt hroom, hfits⟩, fun s' hs' => ?_⟩
      obtain ⟨s, hs, hmalloc⟩ := Option.bind_eq_some_iff.mp hs'
      obtain ⟨s₀, hs₀, hinv⟩ := tableInv_after hfresh.2.2 hpaired hfits
      obtain rfl := Option.some.inj (hs.symm.trans hs₀)
      refine (hat s hs).malloc ?_ hmalloc
      -- what stands at the home of the new block would have the same home
      by_contra hne
      have hlive := hinv.live (home p) (home_lt p) _ (entries_of_ne hne)
      have hsame := hhomes _ p (.tail _ (xalloc_mem_of_tracked hlive)) (.head _) (hat s hs _ hne)
      rw [hsame] at hlive
      exact hfresh.2.1 ((tracked_sublist hfresh.2.2 hpaired).subset hlive)
    | xfree p =>
      obtain ⟨hfits, hat⟩ := ih hfresh hpaired.2 hroom' hhomes'
      refine ⟨⟨fun s hs => (hat s hs).leavesNoGap, hfits⟩, fun s' hs' => ?_⟩
      obtain ⟨s, hs, hfree⟩ := Option.bind_eq_some_iff.mp hs'
      exact (hat s hs).free hfree
    | alloc p =>
      obtain ⟨hfits, hat⟩ := ih hfresh.2.2 hpaired hroom' hhomes'
      refine ⟨hfits, fun s' hs' => ?_⟩
      obtain ⟨s, hs, he⟩ := Option.bind_eq_some_iff.mp hs'
      cases he
      exact hat _ hs
    | free p =>
      obtain ⟨hfits, hat⟩ := ih hfresh hpaired.2 hroom' hhomes'
      refine ⟨hfits, fun s' hs' => ?_⟩
      obtain ⟨s, hs, he⟩ := Option.bind_eq_some_iff.mp hs'
      cases he
      exact hat _ hs
    | realloc p q =>
      obtain ⟨hfits, hat⟩ := ih hfresh.2.2 hpaired.2 hroom' hhomes'
      refine ⟨hfits, fun s' hs' => ?_⟩
      obtain ⟨s, hs, he⟩ := Option.bind_eq_some_iff.mp hs'
      cases he
      exact hat _ hs

theorem disciplined_of_keeps (h : Keeps 0 log owned) (hfits : TableFits site log) :
    Disciplined site log := by
  obtain ⟨s, hs, hinv⟩ := tableInv_after h.fresh h.paired hfits
  exact ⟨h.paired, s, hs, hinv.count⟩

end Fenice.Memory
