import Fenice.Lib.Probe
import Fenice.Lib.Run
import Mathlib.Data.Int.Notation

/-!
# The allocation table (src/en_xmalloc.c)

Every block that is in use is registered in an open-addressing table under the hash of its
address. When a block is unregistered the entries behind it that have lost their way are to be
moved.
-/

namespace Fenice.Memory
open Fenice.Probe Fenice.Run

/-- `SZ`. -/
def sz : ℕ := 5000000

/-- A pointer as an `unsigned long`; `NULL` is zero. -/
abbrev Ptr := BitVec 64

structure Slot where
  ptr : Ptr := 0
  file : String := ""
  line : ℤ := 0
  size : ℕ := 0
  deriving DecidableEq

/-- `malloc_table` and the counters. -/
structure MallocTable where
  table : ℕ → Slot
  mallocCount : ℤ
  freeCount : ℤ
  mallocSize : ℤ
  freeSize : ℤ

def MallocTable.init : MallocTable := ⟨fun _ => {}, 0, 0, 0, 0⟩

def hash_pointer (ptr : Ptr) : Ptr :=
  let key := ptr
  let key := key + (key <<< 12)
  let key := key ^^^ (key >>> 22)
  let key := key + (key <<< 4)
  let key := key ^^^ (key >>> 9)
  let key := key + (key <<< 10)
  let key := key ^^^ (key >>> 2)
  let key := key + (key <<< 7)
  key ^^^ (key >>> 12)

/-- `hash_pointer (ptr) % SZ`. -/
def home (ptr : Ptr) : ℕ := (hash_pointer ptr).toNat % sz

/-- The loop of `ptr_position`; `none` if it does not end. -/
def positionLoop (t : ℕ → Slot) (ptr : Ptr) : ℕ → ℕ → Option ℕ
  | 0, _ => none
  | fuel + 1, i =>
    if (t i).ptr = 0 then some i
    else if (t i).ptr = ptr then some i
    else positionLoop t ptr fuel ((i + 1) % sz)

def ptr_position (t : ℕ → Slot) (ptr : Ptr) : Option ℕ := positionLoop t ptr sz (home ptr)

/-- `register_ptr`; `none` stands for `abort`. -/
def register_ptr (s : MallocTable) (slot : Slot) : Option MallocTable :=
  if s.mallocCount - s.freeCount > sz then none
  else (ptr_position s.table slot.ptr).map fun i =>
    { s with table := Function.update s.table i slot }

/-- The inner loop of `unregister_ptr` for the entry `ptr2` at `i`: the position at which it ends,
or `none` for the jump to `count_outer`. The comparison is with the entry at `i` itself. -/
def innerLoop (t : ℕ → Slot) (ptr2 : Ptr) (i : ℕ) : ℕ → ℕ → Option (Option ℕ)
  | 0, _ => none
  | fuel + 1, j =>
    if (t j).ptr = 0 then some (some j)
    else if ptr2 = (t i).ptr then some none
    else innerLoop t ptr2 i fuel ((j + 1) % sz)

/-- The outer loop of `unregister_ptr`. -/
def outerLoop : ℕ → (ℕ → Slot) → ℕ → Option (ℕ → Slot)
  | 0, _, _ => none
  | fuel + 1, t, i =>
    if (t i).ptr = 0 then some t
    else (innerLoop t (t i).ptr i sz (home (t i).ptr)).bind fun
      | none => outerLoop fuel t ((i + 1) % sz)
      | some j =>
        let t := Function.update t j (t i)
        outerLoop fuel (Function.update t i { t i with ptr := 0, size := 0 }) ((i + 1) % sz)

/-- `unregister_ptr` with its result. -/
def unregister_ptr (s : MallocTable) (ptr : Ptr) : Option (Bool × MallocTable) :=
  (ptr_position s.table ptr).bind fun i =>
    if (s.table i).ptr = 0 then some (false, s)
    else
      (outerLoop sz (Function.update s.table i { s.table i with ptr := 0 }) ((i + 1) % sz)).map
        fun t => (true, { s with table := t, freeSize := s.freeSize + (s.table i).size })

/-- `debugging_malloc`, `debugging_calloc` and `debugging_strdup` with the block that the C library
gives them. -/
def debugging_malloc (s : MallocTable) (slot : Slot) : Option MallocTable :=
  register_ptr
    { s with mallocCount := s.mallocCount + 1, mallocSize := s.mallocSize + slot.size } slot

/-- `debugging_free`; `none` stands for `abort`. -/
def debugging_free (s : MallocTable) (ptr : Ptr) : Option MallocTable :=
  if ptr = 0 then none
  else (unregister_ptr s ptr).bind fun
    | (true, s) => some { s with freeCount := s.freeCount + 1 }
    | (false, _) => none

inductive HeapCall where
  | malloc (slot : Slot)
  | free (ptr : Ptr)
  deriving DecidableEq

/-- The table beside the blocks that are in use. -/
structure Heap where
  state : MallocTable
  live : List Ptr

/-- A new block is none that is in use, and one that is in use is freed; fewer than `SZ` are. -/
def heapStep (h : Heap) : HeapCall → Option Heap
  | .malloc slot =>
    if slot.ptr ≠ 0 ∧ slot.ptr ∉ h.live ∧ h.live.length + 1 < sz then
      (debugging_malloc h.state slot).map fun s => ⟨s, slot.ptr :: h.live⟩
    else none
  | .free ptr =>
    if ptr ∈ h.live then (debugging_free h.state ptr).map fun s => ⟨s, h.live.erase ptr⟩
    else none

/-- The table finds the blocks that are in use and no others. -/
structure Complete (h : Heap) : Prop where
  once : ∀ p ∈ h.live, ∃! x, x < sz ∧ (h.state.table x).ptr = p
  found : ∀ p ∈ h.live, ∃ x, ptr_position h.state.table p = some x ∧ (h.state.table x).ptr = p
  unregisters : ∀ p, p ≠ 0 → ((∃ s, unregister_ptr h.state p = some (true, s)) ↔ p ∈ h.live)

/-- The blocks that the positions hold. -/
def entries (t : ℕ → Slot) (x : ℕ) : Option Ptr := if (t x).ptr = 0 then none else some (t x).ptr

/-- Where the hole comes to that begins at `g`: it goes to an entry behind it whose home it is. -/
def lastHole (t : ℕ → Slot) : ℕ → ℕ → ℕ → ℕ
  | 0, g, _ => g
  | fuel + 1, g, i =>
    if (t i).ptr = 0 then g
    else if home (t i).ptr = g then lastHole t fuel i ((i + 1) % sz)
    else lastHole t fuel g ((i + 1) % sz)

/-- No other entry is looked for over the place where the hole of the freed one comes to rest. -/
def LeavesNoGap (h : Heap) : HeapCall → Prop
  | .malloc _ => True
  | .free ptr => ∀ i, ptr_position h.state.table ptr = some i →
    ∀ x < sz, (h.state.table x).ptr ≠ 0 → (h.state.table x).ptr ≠ ptr →
      ¬ Passes sz (home (h.state.table x).ptr) x (lastHole h.state.table sz i ((i + 1) % sz))

section Entries

variable {t : ℕ → Slot} {p : Ptr} {x i j fuel : ℕ} {slot : Slot}

theorem sz_pos : 0 < sz := by decide

theorem home_lt (p : Ptr) : home p < sz := Nat.mod_lt _ sz_pos

theorem entries_eq_some : entries t x = some p ↔ (t x).ptr = p ∧ p ≠ 0 := by
  rw [entries]
  split
  · rename_i h
    constructor
    · intro hp
      cases hp
    · rintro ⟨rfl, hp⟩
      exact absurd h hp
  · rename_i h
    rw [Option.some.injEq]
    constructor
    · rintro rfl
      exact ⟨rfl, h⟩
    · exact And.left

theorem entries_eq_none : entries t x = none ↔ (t x).ptr = 0 := by
  rw [entries]
  split <;> simp_all

theorem entries_of_ne (h : (t x).ptr ≠ 0) : entries t x = some (t x).ptr := if_neg h

theorem entries_update (hslot : slot.ptr = p) (hp : p ≠ 0) :
    entries (Function.update t x slot) = Function.update (entries t) x (some p) := by
  funext y
  by_cases hy : y = x
  · rw [hy, Function.update_self, entries, Function.update_self, hslot, if_neg hp]
  · rw [Function.update_of_ne hy, entries, Function.update_of_ne hy, entries]

theorem entries_clear (hslot : slot.ptr = 0) :
    entries (Function.update t x slot) = Function.update (entries t) x none := by
  funext y
  by_cases hy : y = x
  · rw [hy, Function.update_self, entries, Function.update_self, if_pos hslot]
  · rw [Function.update_of_ne hy, entries, Function.update_of_ne hy, entries]

theorem positionLoop_eq (hp : p ≠ 0) :
    positionLoop t p fuel i = find sz (entries t) p fuel i := by
  induction fuel generalizing i with
  | zero => rfl
  | succ fuel ih =>
    rw [positionLoop, find, ih]
    simp only [entries_eq_none, entries_eq_some, ne_eq, hp, not_false_eq_true, and_true]

/-- The inner loop ends at once: it compares an entry with itself. -/
theorem innerLoop_eq (hfuel : 0 < fuel) :
    innerLoop t (t i).ptr i fuel j = some (if (t j).ptr = 0 then some j else none) := by
  cases fuel with
  | zero => omega
  | succ fuel =>
    rw [innerLoop]
    split <;> simp

theorem position_inj {m m' : ℕ} (hi : i < sz) (hm : m < sz) (hm' : m' < sz)
    (h : (i + m) % sz = (i + m') % sz) : m = m' := by
  rw [← dist_add hi hm, h, dist_add hi hm']

end Entries

/-! ### Unregistering -/

/-- Where the scan from `start` is: the hole lies in front of it, and what comes is as it was in
the table `o`. -/
structure Scanned (o t : ℕ → Slot) (start m g : ℕ) : Prop where
  holed : Holed sz home (entries t) g
  hole : ∃ k < m, g = (start + k) % sz
  ahead : ∀ k, m ≤ k → k < sz → t ((start + k) % sz) = o ((start + k) % sz)

/-- What the scan makes of the table `t`: entries are where they were or at home. -/
structure Shifted (t t' : ℕ → Slot) : Prop where
  moved : ∀ x < sz, ∀ a, entries t' x = some a →
    entries t x = some a ∨ home a = x ∧ ∃ y < sz, entries t y = some a
  kept : ∀ a, (∃ x < sz, entries t x = some a) → ∃ x < sz, entries t' x = some a

section Scan

variable {o t t' : ℕ → Slot} {start m g fuel e : ℕ}

theorem Shifted.refl (t : ℕ → Slot) : Shifted t t := ⟨fun _ _ _ => .inl, fun _ => id⟩

theorem Shifted.trans {t'' : ℕ → Slot} (h : Shifted t t') (h' : Shifted t' t'') :
    Shifted t t'' where
  moved := by
    intro x hx a ha
    rcases h'.moved x hx a ha with ha' | ⟨hhome, y, hy, ha'⟩
    · exact h.moved x hx a ha'
    · refine .inr ⟨hhome, ?_⟩
      rcases h.moved y hy a ha' with hat | ⟨-, hat⟩
      · exact ⟨y, hy, hat⟩
      · exact hat
  kept := fun a ha => h'.kept a (h.kept a ha)

theorem Scanned.home_hole (h : Scanned o t start m g) {i : ℕ} (hi : i < sz)
    (hne : (t i).ptr ≠ 0) : (t (home (t i).ptr)).ptr = 0 ↔ home (t i).ptr = g := by
  constructor
  · intro hempty
    have hd : 0 < dist sz (home (t i).ptr) i := by
      by_contra hzero
      have hsame := add_dist (home_lt (t i).ptr) hi
      rw [Nat.eq_zero_of_not_pos hzero, Nat.add_zero, Nat.mod_eq_of_lt (home_lt _)] at hsame
      rw [hsame] at hempty
      exact hne hempty
    have hreach := h.holed.reach i hi _ (entries_of_ne hne) 0 hd
    rw [Nat.add_zero, Nat.mod_eq_of_lt (home_lt _), ne_eq, entries_eq_none] at hreach
    exact hreach.resolve_left (fun hn => hn hempty)
  · intro hg
    rw [hg]
    exact entries_eq_none.mp h.holed.empty

theorem Scanned.move (h : Scanned o t start m g) (hstart : start < sz) (hm : m < sz)
    (hne : (t ((start + m) % sz)).ptr ≠ 0) (hg : home (t ((start + m) % sz)).ptr = g) :
    Scanned o (Function.update (Function.update t g (t ((start + m) % sz))) ((start + m) % sz)
        { t ((start + m) % sz) with ptr := 0, size := 0 }) start (m + 1) ((start + m) % sz) ∧
      Shifted t (Function.update (Function.update t g (t ((start + m) % sz)))
        ((start + m) % sz) { t ((start + m) % sz) with ptr := 0, size := 0 }) := by
  have hx : (start + m) % sz < sz := Nat.mod_lt _ sz_pos
  have hgz : g < sz := hg ▸ home_lt _
  have hentries : entries (Function.update (Function.update t g (t ((start + m) % sz)))
      ((start + m) % sz) { t ((start + m) % sz) with ptr := 0, size := 0 }) =
      Function.update (Function.update (entries t) g (some (t ((start + m) % sz)).ptr))
        ((start + m) % sz) none := by
    rw [entries_clear rfl, entries_update rfl hne]
  obtain ⟨k, hk, hgk⟩ := h.hole
  constructor
  · refine ⟨?_, ⟨m, Nat.lt_succ_self m, rfl⟩, ?_⟩
    · rw [hentries]
      exact h.holed.move hx (entries_of_ne hne) hg
    · intro l hl hlz
      have hlm : (start + l) % sz ≠ (start + m) % sz := fun he => by
        have := position_inj hstart hlz hm he
        omega
      have hlg : (start + l) % sz ≠ g := fun he => by
        have := position_inj hstart hlz (by omega) (he.trans hgk)
        omega
      rw [Function.update_of_ne hlm, Function.update_of_ne hlg]
      exact h.ahead l (by omega) hlz
  · constructor
    · intro x _ a ha
      rw [hentries, Function.update_apply] at ha
      split at ha
      · cases ha
      · rw [Function.update_apply] at ha
        split at ha
        · cases ha
          exact .inr ⟨hg.trans (Eq.symm ‹_›), _, hx, entries_of_ne hne⟩
        · exact .inl ha
    · rintro a ⟨x, hxz, ha⟩
      rw [hentries]
      by_cases hxm : x = (start + m) % sz
      · rw [hxm, entries_of_ne hne] at ha
        cases ha
        have hgm : g ≠ (start + m) % sz := fun he => by
          have hempty := entries_eq_none.mp h.holed.empty
          rw [he] at hempty
          exact hne hempty
        exact ⟨g, hgz, by rw [Function.update_of_ne hgm, Function.update_self]⟩
      · have hxg : x ≠ g := fun he => by
          rw [he, h.holed.empty] at ha
          cases ha
        exact ⟨x, hxz, by rw [Function.update_of_ne hxm, Function.update_of_ne hxg, ha]⟩

/-- The scan ends at the first empty position, and its hole is the one that `lastHole` says. -/
theorem outerLoop_spec (h : Scanned o t start m g) (hstart : start < sz) (hme : m ≤ e)
    (he : e < sz) (hend : (o ((start + e) % sz)).ptr = 0) (hfuel : e - m < fuel) :
    ∃ t', outerLoop fuel t ((start + m) % sz) = some t' ∧
      Holed sz home (entries t') (lastHole o fuel g ((start + m) % sz)) ∧ Shifted t t' := by
  induction fuel generalizing t m g with
  | zero => omega
  | succ fuel ih =>
    have hat := h.ahead m le_rfl (by omega)
    have hnext : ((start + m) % sz + 1) % sz = (start + (m + 1)) % sz := by
      rw [Nat.mod_add_mod, Nat.add_assoc]
    rw [outerLoop, lastHole, ← hat, hnext]
    by_cases hempty : (t ((start + m) % sz)).ptr = 0
    · rw [if_pos hempty, if_pos hempty]
      exact ⟨t, rfl, h.holed, .refl t⟩
    · have hlt : m < e := by
        rcases Nat.lt_or_ge m e with hlt | hge
        · exact hlt
        · obtain rfl : m = e := by omega
          exact absurd (hat ▸ hend) hempty
      have hhole := h.home_hole (Nat.mod_lt _ sz_pos) hempty
      rw [if_neg hempty, if_neg hempty, innerLoop_eq sz_pos, Option.bind_some]
      by_cases hg : home (t ((start + m) % sz)).ptr = g
      · obtain ⟨hscan, hshift⟩ := h.move hstart (by omega) hempty hg
        rw [if_pos (hhole.mpr hg), if_pos hg]
        obtain ⟨t', ht', hholed, hrest⟩ := ih hscan (by omega) (by omega)
        refine ⟨t', ?_, hholed, hshift.trans hrest⟩
        have hself : Function.update t g (t ((start + m) % sz)) ((start + m) % sz) =
            t ((start + m) % sz) := by
          rw [Function.update_apply]
          split <;> rfl
        simp only [hg, hself]
        exact ht'
      · rw [if_neg (fun hz => hg (hhole.mp hz)), if_neg hg]
        refine ih ⟨h.holed, ?_, ?_⟩ (by omega) (by omega)
        · obtain ⟨k, hk, hgk⟩ := h.hole
          exact ⟨k, by omega, hgk⟩
        · exact fun l hl hlz => h.ahead l (by omega) hlz

end Scan

/-! ### The blocks in use -/

/-- The table holds the blocks that are in use, and each where it is found. -/
structure TableInv (h : Heap) : Prop where
  sound : Sound sz home (entries h.state.table)
  live : ∀ x < sz, ∀ a, entries h.state.table x = some a → a ∈ h.live
  held : ∀ p ∈ h.live, ∃ x < sz, entries h.state.table x = some p
  nodup : h.live.Nodup
  room : h.live.length < sz
  count : h.state.mallocCount - h.state.freeCount = h.live.length

section Blocks

variable {h h' : Heap} {p : Ptr} {slot : Slot}

theorem TableInv.empty (hinv : TableInv h) : ∃ e < sz, entries h.state.table e = none :=
  exists_empty hinv.live hinv.sound.once hinv.room

theorem TableInv.position (hinv : TableInv h) (hp : p ∈ h.live) :
    ∃ x < sz, ptr_position h.state.table p = some x ∧ entries h.state.table x = some p := by
  obtain ⟨x, hx, ha⟩ := hinv.held p hp
  refine ⟨x, hx, ?_, ha⟩
  rw [ptr_position, positionLoop_eq (entries_eq_some.mp ha).2]
  exact hinv.sound.find_entry (home_lt p) hx ha le_rfl

theorem TableInv.absent (hinv : TableInv h) (hp : p ≠ 0) (hlive : p ∉ h.live) :
    (∀ x < sz, entries h.state.table x ≠ some p) ∧
      ∃ x < sz, ptr_position h.state.table p = some x ∧ entries h.state.table x = none ∧
        ∀ k < dist sz (home p) x, entries h.state.table ((home p + k) % sz) ≠ none := by
  have habsent : ∀ x < sz, entries h.state.table x ≠ some p :=
    fun x hx ha => hlive (hinv.live x hx p ha)
  refine ⟨habsent, ?_⟩
  rw [ptr_position, positionLoop_eq hp]
  exact find_absent (home_lt p) habsent hinv.empty le_rfl

theorem TableInv.init : TableInv ⟨MallocTable.init, []⟩ where
  sound := by
    constructor
    · intro x _ a ha
      cases ha
    · intro x _ y _ a ha
      cases ha
  live := by
    intro x _ a ha
    cases ha
  held := fun _ hp => absurd hp List.not_mem_nil
  nodup := .nil
  room := sz_pos
  count := rfl

theorem TableInv.malloc (hinv : TableInv h) (hslot : slot.ptr ≠ 0) (hfresh : slot.ptr ∉ h.live)
    (hroom : h.live.length + 1 < sz) :
    ∃ s, debugging_malloc h.state slot = some s ∧ TableInv ⟨s, slot.ptr :: h.live⟩ := by
  obtain ⟨habsent, x, hx, hpos, hempty, hwalk⟩ := hinv.absent hslot hfresh
  have hcount := hinv.count
  have hentries : entries (Function.update h.state.table x slot) =
      Function.update (entries h.state.table) x (some slot.ptr) := entries_update rfl hslot
  refine ⟨_, by rw [debugging_malloc, register_ptr, if_neg (by dsimp only; omega), hpos]; rfl, ?_⟩
  refine ⟨?_, ?_, ?_, ?_, hroom, ?_⟩
  · simp only [hentries]
    exact hinv.sound.insert habsent hwalk
  · intro y hy a ha
    simp only [hentries, Function.update_apply] at ha
    split at ha
    · cases ha
      exact List.mem_cons_self ..
    · exact List.mem_cons_of_mem _ (hinv.live y hy a ha)
  · intro a ha
    simp only [hentries]
    rcases List.mem_cons.mp ha with rfl | ha
    · exact ⟨x, hx, Function.update_self ..⟩
    · obtain ⟨y, hy, hya⟩ := hinv.held a ha
      have hyx : y ≠ x := fun he => by
        rw [he, hempty] at hya
        cases hya
      exact ⟨y, hy, by rw [Function.update_of_ne hyx, hya]⟩
  · exact List.nodup_cons.mpr ⟨hfresh, hinv.nodup⟩
  · simp only [List.length_cons]
    omega

theorem TableInv.unregister (hinv : TableInv h) (hp : p ∈ h.live) :
    ∃ i t, i < sz ∧ ptr_position h.state.table p = some i ∧ entries h.state.table i = some p ∧
      unregister_ptr h.state p = some (true, { h.state with
        table := t, freeSize := h.state.freeSize + (h.state.table i).size }) ∧
      Holed sz home (entries t) (lastHole h.state.table sz i ((i + 1) % sz)) ∧
      Shifted (Function.update h.state.table i { h.state.table i with ptr := 0 }) t := by
  obtain ⟨i, hi, hpos, ha⟩ := hinv.position hp
  obtain ⟨hptr, hp0⟩ := entries_eq_some.mp ha
  obtain ⟨e, he, hnone⟩ := hinv.empty
  have hclear : entries (Function.update h.state.table i { h.state.table i with ptr := 0 }) =
      Function.update (entries h.state.table) i none := entries_clear rfl
  have hie : dist sz i e ≠ 0 := fun hzero => by
    have hsame := add_dist hi he
    rw [hzero, Nat.add_zero, Nat.mod_eq_of_lt hi] at hsame
    rw [hsame, hnone] at ha
    cases ha
  have hscan : Scanned h.state.table
      (Function.update h.state.table i { h.state.table i with ptr := 0 }) i 1 i := by
    refine ⟨?_, ⟨0, Nat.one_pos, by rw [Nat.add_zero, Nat.mod_eq_of_lt hi]⟩, ?_⟩
    · rw [hclear]
      exact hinv.sound.remove i
    · intro k hk hkz
      have hne : (i + k) % sz ≠ i := fun hsame => by
        have hd := dist_add hi hkz
        rw [hsame, dist_self] at hd
        omega
      exact Function.update_of_ne hne ..
  have hlt := dist_lt sz_pos i e
  obtain ⟨t, ht, hholed, hshift⟩ := outerLoop_spec hscan hi (by omega : 1 ≤ dist sz i e) hlt
    (by rw [add_dist hi he]; exact entries_eq_none.mp hnone) (by omega : dist sz i e - 1 < sz)
  refine ⟨i, t, hi, hpos, ha, ?_, hholed, hshift⟩
  rw [unregister_ptr, hpos, Option.bind_some, if_neg (hptr ▸ hp0), ht]
  rfl

theorem TableInv.free (hinv : TableInv h) (hp : p ∈ h.live) (hgap : LeavesNoGap h (.free p)) :
    ∃ s, debugging_free h.state p = some s ∧ TableInv ⟨s, h.live.erase p⟩ := by
  obtain ⟨i, t, hi, hpos, ha, hun, hholed, hshift⟩ := hinv.unregister hp
  obtain ⟨hptr, hp0⟩ := entries_eq_some.mp ha
  have hclear : entries (Function.update h.state.table i { h.state.table i with ptr := 0 }) =
      Function.update (entries h.state.table) i none := entries_clear rfl
  -- what stands in the table now stood in it before, and is another block
  have hother : ∀ x < sz, ∀ a, entries (Function.update h.state.table i
      { h.state.table i with ptr := 0 }) x = some a → entries h.state.table x = some a ∧ a ≠ p := by
    intro x hx a hxa
    rw [hclear, Function.update_apply] at hxa
    split at hxa
    · cases hxa
    · rename_i hxi
      refine ⟨hxa, ?_⟩
      rintro rfl
      exact hxi (hinv.sound.once x hx i hi a hxa ha)
  have hsound : Sound sz home (entries t) := by
    refine hholed.sound home_lt ?_
    intro x hx a hxa
    rcases hshift.moved x hx a hxa with hxa | ⟨hhome, -⟩
    · obtain ⟨hxa, hne⟩ := hother x hx a hxa
      obtain ⟨rfl, hx0⟩ := entries_eq_some.mp hxa
      exact hgap i hpos x hx hx0 hne
    · rw [Passes, hhome, dist_self]
      omega
  have hcount := hinv.count
  have hlength := List.length_erase_of_mem hp
  have hpositive := List.length_pos_of_mem hp
  have hroom := hinv.room
  refine ⟨_, by rw [debugging_free, if_neg hp0, hun]; rfl, hsound, ?_, ?_, hinv.nodup.erase p, ?_, ?_⟩
  · intro x hx a hxa
    rw [hinv.nodup.mem_erase_iff]
    rcases hshift.moved x hx a hxa with hxa | ⟨-, y, hy, hya⟩
    · obtain ⟨hxa, hne⟩ := hother x hx a hxa
      exact ⟨hne, hinv.live x hx a hxa⟩
    · obtain ⟨hya, hne⟩ := hother y hy a hya
      exact ⟨hne, hinv.live y hy a hya⟩
  · intro a hlive
    obtain ⟨hne, hlive⟩ := hinv.nodup.mem_erase_iff.mp hlive
    obtain ⟨x, hx, hxa⟩ := hinv.held a hlive
    refine hshift.kept a ⟨x, hx, ?_⟩
    have hxi : x ≠ i := by
      rintro rfl
      rw [ha] at hxa
      exact hne (Option.some.inj hxa).symm
    rw [hclear, Function.update_of_ne hxi, hxa]
  · dsimp only
    omega
  · dsimp only
    omega

theorem TableInv.step (hinv : TableInv h) {c : HeapCall} (hg : LeavesNoGap h c)
    (hs : heapStep h c = some h') : TableInv h' := by
  cases c with
  | malloc slot =>
    rw [heapStep] at hs
    split at hs
    · rename_i hnew
      obtain ⟨s, he, hnext⟩ := hinv.malloc hnew.1 hnew.2.1 hnew.2.2
      rw [he] at hs
      cases hs
      exact hnext
    · cases hs
  | free p =>
    rw [heapStep] at hs
    split at hs
    · rename_i hp
      obtain ⟨s, he, hnext⟩ := hinv.free hp hg
      rw [he] at hs
      cases hs
      exact hnext
    · cases hs

theorem TableInv.complete (hinv : TableInv h) : Complete h where
  once := by
    intro p hp
    obtain ⟨x, hx, ha⟩ := hinv.held p hp
    obtain ⟨hptr, hp0⟩ := entries_eq_some.mp ha
    refine ⟨x, ⟨hx, hptr⟩, ?_⟩
    rintro y ⟨hy, hyp⟩
    exact hinv.sound.once y hy x hx p (entries_eq_some.mpr ⟨hyp, hp0⟩) ha
  found := by
    intro p hp
    obtain ⟨x, -, hpos, ha⟩ := hinv.position hp
    exact ⟨x, hpos, (entries_eq_some.mp ha).1⟩
  unregisters := by
    intro p hp0
    constructor
    · rintro ⟨s, hs⟩
      by_contra hp
      obtain ⟨-, x, -, hpos, hempty, -⟩ := hinv.absent hp0 hp
      rw [unregister_ptr, hpos, Option.bind_some, if_pos (entries_eq_none.mp hempty)] at hs
      cases hs
    · intro hp
      obtain ⟨i, t, -, -, -, hun, -⟩ := hinv.unregister hp
      exact ⟨_, hun⟩

end Blocks

/-- As long as every block that is freed leaves no gap behind, the table finds the blocks in use. -/
theorem table_complete {cs : List HeapCall} {h : Heap}
    (hrun : GuardedRun heapStep LeavesNoGap ⟨MallocTable.init, []⟩ cs h) : Complete h := by
  have hinv : TableInv h :=
    hrun.invariant (fun _ _ _ hi hg hs => hi.step hg hs) TableInv.init
  exact hinv.complete

theorem TableInv.leavesNoGap {h : Heap} (hinv : TableInv h) {ptr : Ptr} {i : ℕ}
    (hi : ptr_position h.state.table ptr = some i)
    (hall : ∀ p ∈ h.live, p ≠ ptr → ∀ x ∈ ptr_position h.state.table p,
      ¬ Passes sz (home p) x (lastHole h.state.table sz i ((i + 1) % sz))) :
    LeavesNoGap h (.free ptr) := by
  intro j hj x hx hx0 hother
  obtain rfl : i = j := Option.some.inj (hi.symm.trans hj)
  have hentry := entries_of_ne hx0
  have hlive := hinv.live x hx _ hentry
  obtain ⟨y, hy, hfound, hhere⟩ := hinv.position hlive
  obtain rfl : y = x := hinv.sound.once y hy x hx _ hhere hentry
  exact hall _ hlive hother y hfound

/-- The third block has the home of the first, and the second stands between them. -/
def collidingBlocks : List HeapCall :=
  [.malloc ⟨0x55555576ac60, "", 0, 16⟩, .malloc ⟨0x555555774f70, "", 0, 16⟩,
    .malloc ⟨0x5555557da580, "", 0, 16⟩]

/-- The first block is freed, and the third moves to its home. -/
theorem table_complete_freed :
    ∃ h, exec heapStep ⟨MallocTable.init, []⟩ (collidingBlocks ++ [.free 0x55555576ac60]) = some h ∧
      h.live = [0x5555557da580, 0x555555774f70] ∧ (h.state.table 4685608).ptr = 0x5555557da580 ∧
      Complete h := by
  have hrun : (exec heapStep ⟨MallocTable.init, []⟩ collidingBlocks).any fun h =>
      decide (ptr_position h.state.table 0x55555576ac60 = some 4685608) &&
        h.live.all fun p => decide (p ≠ 0x55555576ac60 → ∀ x ∈ ptr_position h.state.table p,
          ¬ Passes sz (home p) x (lastHole h.state.table sz 4685608 ((4685608 + 1) % sz))) := by
    decide +kernel
  obtain ⟨h, hh, hcheck⟩ := (Option.any_eq_true _ _).mp hrun
  obtain ⟨hpos, hall⟩ := Bool.and_eq_true_iff.mp hcheck
  have hblocks : GuardedRun heapStep LeavesNoGap ⟨MallocTable.init, []⟩ collidingBlocks h := by
    cases hh
    exact .cons trivial rfl (.cons trivial rfl (.cons trivial rfl (.nil _)))
  have hinv : TableInv h :=
    hblocks.invariant (fun _ _ _ hi hg hs => hi.step hg hs) TableInv.init
  have hgap : LeavesNoGap h (.free 0x55555576ac60) :=
    hinv.leavesNoGap (of_decide_eq_true hpos) fun p hp =>
      of_decide_eq_true (List.all_eq_true.mp hall p hp)
  have hfree : ((exec heapStep ⟨MallocTable.init, []⟩ collidingBlocks).bind fun h =>
      heapStep h (.free 0x55555576ac60)).any fun h =>
        decide (h.live = [0x5555557da580, 0x555555774f70] ∧
          (h.state.table 4685608).ptr = 0x5555557da580) := by
    decide +kernel
  obtain ⟨h', hh', hends⟩ := (Option.any_eq_true _ _).mp hfree
  rw [hh, Option.bind_some] at hh'
  obtain ⟨hlive, hmoved⟩ := of_decide_eq_true hends
  have hall := hblocks.snoc hgap hh'
  exact ⟨h', hall.exec_eq, hlive, hmoved, table_complete hall⟩

/-- With the second freed instead, the third is not moved. -/
def threeBlocks : List HeapCall := collidingBlocks ++ [.free 0x555555774f70]

theorem third_block_lost : ¬ ∀ (cs : List HeapCall) (h : Heap),
    exec heapStep ⟨MallocTable.init, []⟩ cs = some h → Complete h := by
  intro hall
  have hrun : (exec heapStep ⟨MallocTable.init, []⟩ threeBlocks).any fun h =>
      decide (0x5555557da580 ∈ h.live) &&
        (unregister_ptr h.state 0x5555557da580).all fun r => !r.1 := by
    decide +kernel
  obtain ⟨h, hh, hlost⟩ := (Option.any_eq_true _ _).mp hrun
  obtain ⟨hlive, hlost⟩ := Bool.and_eq_true_iff.mp hlost
  obtain ⟨s, hs⟩ := ((hall _ h hh).unregisters _ (by decide)).mpr (of_decide_eq_true hlive)
  rw [hs] at hlost
  cases hlost

end Fenice.Memory
