import Fenice.Memory.Allocations

/-!
# Who owns which block

The tracked blocks that the server is going to release are those of the connections that were
first, of their RTSP sessions and of the descriptions in the list. All others come and go within
one call, or are never released.
-/

namespace Fenice.Memory
open Fenice.Ledger Fenice.Run List

/-- The blocks that `schedule_connections` releases with a connection. -/
def RTSPBuffer.owned (p : RTSPBuffer) : List Ptr :=
  (if p.first then [p.ptr] else []) ++ (p.sessionList.map RTSPSession.ptr).toList

def SDDescr.owned (d : SDDescr) : List Ptr := [d.ptr]

namespace Server

def owned (s : Server) : List Ptr :=
  s.rtspList.flatMap RTSPBuffer.owned ++ s.sdGlobalList.flatMap SDDescr.owned

/-- The server has kept to its allocators, and has what it owns. -/
def Sound (s : Server) : Prop := Keeps 0 s.log s.owned

/-- What is owned beside the connection at `k`. -/
def ownedBeside (s : Server) (k : ℕ) : List Ptr :=
  (s.rtspList.eraseIdx k).flatMap RTSPBuffer.owned ++ s.sdGlobalList.flatMap SDDescr.owned

end Server

section Lists

variable {α : Type} {l : List α} {a b : α} {k : ℕ} (f : α → List Ptr)

theorem flatMap_perm_eraseIdx (h : l[k]? = some a) :
    l.flatMap f ~ f a ++ (l.eraseIdx k).flatMap f := by
  induction l generalizing k with
  | nil => cases h
  | cons x l ih =>
    cases k with
    | zero =>
      cases h
      exact .refl _
    | succ k =>
      rw [flatMap_cons, eraseIdx_cons_succ, flatMap_cons]
      exact ((ih h).append_left (f x)).trans (perm_append_comm_assoc _ _ _)

theorem flatMap_set_perm (h : l[k]? = some a) :
    (l.set k b).flatMap f ~ f b ++ (l.eraseIdx k).flatMap f := by
  induction l generalizing k with
  | nil => cases h
  | cons x l ih =>
    cases k with
    | zero => exact .refl _
    | succ k =>
      rw [set_cons_succ, flatMap_cons, eraseIdx_cons_succ, flatMap_cons]
      exact ((ih h).append_left (f x)).trans (perm_append_comm_assoc _ _ _)

end Lists

section Connections

variable {s : Server} {p p' : RTSPBuffer} {k : ℕ}

theorem Server.sound_iff (h : s.rtspList[k]? = some p) :
    s.Sound ↔ Keeps 0 s.log (p.owned ++ s.ownedBeside k) := by
  have hperm : s.owned ~ p.owned ++ s.ownedBeside k := by
    rw [Server.owned, Server.ownedBeside, ← append_assoc]
    exact (flatMap_perm_eraseIdx _ h).append_right _
  exact ⟨fun hs => hs.weaken hperm.symm.subperm, fun hs => Keeps.weaken hs hperm.subperm⟩

theorem Server.sound_setClient (h : s.rtspList[k]? = some p)
    (hs : Keeps 0 s.log (p'.owned ++ s.ownedBeside k)) : (s.setClient k p').Sound := by
  have hperm : (s.setClient k p').owned ~ p'.owned ++ s.ownedBeside k := by
    rw [Server.owned, Server.ownedBeside, ← append_assoc]
    exact (flatMap_set_perm _ h).append_right _
  exact Keeps.weaken hs hperm.subperm

end Connections

/-! ### Blocks that come and go -/

section Blocks

variable {c : CLibrary} {log log' : Log} {p : Ptr} {o : List Ptr}

theorem xmalloc_keeps (hc : c.Gives) (h : Keeps 0 log o) (hx : xmalloc c log = some (p, log')) :
    Keeps 0 log' (p :: o) := by
  obtain ⟨q, hq, he⟩ := Option.map_eq_some_iff.mp hx
  cases he
  exact h.xalloc (hc log p hq).1 (hc log p hq).2

theorem malloc_keeps (hc : c.Gives) (h : Keeps 0 log o) : Keeps 0 (malloc c log).2 o := by
  rw [malloc]
  split
  · rename_i q hq
    exact h.alloc (hc log q hq).1 (hc log q hq).2
  · exact h

theorem ipcName_keeps (hc : c.Gives) (h : Keeps 0 log o) : Keeps 0 (ipcName c log).2 o := by
  rw [ipcName, malloc]
  cases hq : c.malloc log with
  | none => exact h
  | some q => exact h.alloc_free (hc log q hq).1 (hc log q hq).2

theorem scratch_keeps (hc : c.Gives) (h : Keeps 0 log o) (hs : scratch c log = some log') :
    Keeps 0 log' o := by
  obtain ⟨⟨q, log₁⟩, hx, rfl⟩ := Option.map_eq_some_iff.mp hs
  exact (xmalloc_keeps hc h hx).xfree

theorem send_describe_reply_keeps (hc : c.Gives) (h : Keeps 0 log o)
    (hs : send_describe_reply c log = some log') : Keeps 0 log' o := by
  obtain ⟨⟨mb, log₁⟩, hmb, hs⟩ := Option.bind_eq_some_iff.mp hs
  obtain ⟨⟨r, log₂⟩, hr, rfl⟩ := Option.map_eq_some_iff.mp hs
  have hboth := xmalloc_keeps hc (xmalloc_keeps hc h hmb) hr
  -- the body goes first
  exact (hboth.weaken (Perm.swap r mb o).subperm).xfree.xfree

theorem CLibrary.Gives.not_tracked (hc : c.Gives) (h : Keeps 0 log o) (hp : c.malloc log = some p) :
    p ∉ tracked log :=
  fun hmem => (hc log p hp).2 ((tracked_sublist h.fresh h.paired).subset hmem)

theorem parse_url_keeps (hc : c.Gives) {scheme : Bool} (h : Keeps 0 log o)
    (hs : parse_url c scheme log = some log') : Keeps 0 log' o := by
  rw [parse_url, malloc] at hs
  cases hfull : c.malloc log with
  | none =>
    rw [hfull] at hs
    cases hs
  | some full =>
    rw [hfull] at hs
    have h₁ := h.alloc (hc log full hfull).1 (hc log full hfull).2
    have hfull' : full ∉ tracked log := hc.not_tracked h hfull
    dsimp only at hs
    split at hs
    · cases hs
      exact h₁.free hfull'
    · rw [malloc] at hs
      cases hpart : c.malloc (.alloc full :: log) with
      | none =>
        rw [hpart] at hs
        cases hs
      | some part =>
        rw [hpart] at hs
        cases hs
        have hpart' : part ∉ tracked (.alloc full :: log) := hc.not_tracked h₁ hpart
        have h₂ := h₁.alloc_free (hc _ part hpart).1 (hc _ part hpart).2
        have hsame : tracked (.free part :: .alloc part :: .alloc full :: log) =
            tracked (.alloc full :: log) := erase_of_not_mem hpart'
        exact h₂.free (by rwa [hsame])

theorem OMSbuff_new_keeps {b : Ptr} {buffer : OMSBuffer} (hc : c.Gives) (h : Keeps 0 log o)
    (hb : OMSbuff_new c log = some (b, buffer, log')) : Keeps 0 log' o := by
  obtain ⟨⟨slots, log₁⟩, hslots, hb⟩ := Option.bind_eq_some_iff.mp hb
  obtain ⟨⟨control, log₂⟩, hcontrol, hb⟩ := Option.bind_eq_some_iff.mp hb
  obtain ⟨⟨q, log₃⟩, hbuffer, he⟩ := Option.map_eq_some_iff.mp hb
  cases he
  have h₁ := (xmalloc_keeps hc h hslots).forget
  have h₂ := (xmalloc_keeps hc h₁ hcontrol).forget
  exact (xmalloc_keeps hc h₂ hbuffer).forget

theorem OMSbuff_shm_map_keeps (hc : c.Gives) (h : Keeps 0 log o) (mapped : Bool × Bool) :
    Keeps 0 (OMSbuff_shm_map c mapped log).2 o := by
  have h₁ := ipcName_keeps hc h
  rw [OMSbuff_shm_map]
  split
  · rename_i log₁ he
    rw [he] at h₁
    exact h₁
  · rename_i log₁ he
    rw [he] at h₁
    have h₂ := ipcName_keeps hc h₁
    split
    · exact h₁
    · split
      · rename_i log₂ he
        rw [he] at h₂
        exact h₂
      · rename_i log₂ he
        rw [he] at h₂
        split
        · exact h₂
        · exact malloc_keeps hc h₂

end Blocks

/-! ### Calls that leave the lists as they are -/

/-- What is owned before is owned afterwards. -/
structure Lends (s s' : Server) : Prop where
  clients : s'.rtspList = s.rtspList
  descrs : s'.sdGlobalList = s.sdGlobalList
  keeps : ∀ o, Keeps 0 s.log o → Keeps 0 s'.log o

/-- A call that changes at most the list of descriptions. -/
structure Serves (s s' : Server) : Prop where
  clients : s'.rtspList = s.rtspList
  sound : s.Sound → s'.Sound

section Calls

variable {c : CLibrary} {s s' s'' : Server}

theorem Lends.refl (s : Server) : Lends s s := ⟨rfl, rfl, fun _ => id⟩

theorem Lends.trans (h : Lends s s') (h' : Lends s' s'') : Lends s s'' :=
  ⟨h'.clients.trans h.clients, h'.descrs.trans h.descrs, fun o ho => h'.keeps o (h.keeps o ho)⟩

theorem Lends.of_eq (hclients : s'.rtspList = s.rtspList)
    (hdescrs : s'.sdGlobalList = s.sdGlobalList) (hlog : s'.log = s.log) : Lends s s' :=
  ⟨hclients, hdescrs, fun o ho => by rwa [hlog]⟩

theorem Lends.of_log {log : Log} (h : ∀ o, Keeps 0 s.log o → Keeps 0 log o) :
    Lends s { s with log := log } := ⟨rfl, rfl, h⟩

theorem Lends.owned (h : Lends s s') : s'.owned = s.owned := by
  rw [Server.owned, Server.owned, h.clients, h.descrs]

theorem Lends.serves (h : Lends s s') : Serves s s' := by
  refine ⟨h.clients, fun hs => ?_⟩
  rw [Server.Sound, h.owned]
  exact h.keeps _ hs

theorem Serves.trans (h : Serves s s') (h' : Serves s' s'') : Serves s s'' :=
  ⟨h'.clients.trans h.clients, fun hs => h'.sound (h.sound hs)⟩

theorem replied_lends (hc : c.Gives) (h : replied c s = some s') : Lends s s' := by
  obtain ⟨log, hlog, rfl⟩ := Option.map_eq_some_iff.mp h
  exact .of_log fun o ho => scratch_keeps hc ho hlog

theorem parsed_lends (hc : c.Gives) {url : Option Bool} (h : parsed c url s = some s') :
    Lends s s' := by
  cases url with
  | none =>
    cases h
    exact .refl _
  | some scheme =>
    obtain ⟨log, hlog, rfl⟩ := Option.map_eq_some_iff.mp h
    exact .of_log fun o ho => parse_url_keeps hc ho hlog

theorem newEntries_lends (hc : c.Gives) {l : List MediaEntry} {ps : List Ptr}
    (h : newEntries c l s = some (ps, s')) : Lends s s' := by
  induction l generalizing s ps with
  | nil =>
    cases h
    exact .refl _
  | cons me l ih =>
    obtain ⟨⟨p, log⟩, hp, h⟩ := Option.bind_eq_some_iff.mp h
    obtain ⟨⟨ps', s₁⟩, hrest, he⟩ := Option.map_eq_some_iff.mp h
    cases he
    have hnew : Lends s { s with log := log } := .of_log fun o ho => (xmalloc_keeps hc ho hp).forget
    have hmedia : Lends { s with log := log } ({ s with log := log }.setMedia p me) :=
      .of_eq rfl rfl rfl
    exact (hnew.trans hmedia).trans (ih hrest)

theorem parse_SD_file_lends (hc : c.Gives) {file : Option SDFile} {d d' : SDDescr} {ok : Bool}
    (h : parse_SD_file c file d s = some (ok, d', s')) : Lends s s' ∧ d'.ptr = d.ptr := by
  cases file with
  | none =>
    cases h
    exact ⟨.refl _, rfl⟩
  | some f =>
    rw [parse_SD_file] at h
    split at h
    · cases h
      exact ⟨.refl _, rfl⟩
    · split at h
      · cases h
        exact ⟨.refl _, rfl⟩
      · obtain ⟨⟨ps, s₁⟩, hnew, he⟩ := Option.map_eq_some_iff.mp h
        cases he
        exact ⟨newEntries_lends hc hnew, rfl⟩

theorem findDescr_serves (hc : c.Gives) {object : String} {i : ℕ}
    (h : findDescr c object s = some (i, s')) : Serves s s' := by
  rw [findDescr] at h
  split at h
  · cases h
    exact (Lends.refl s).serves
  · obtain ⟨⟨p, log⟩, hp, he⟩ := Option.map_eq_some_iff.mp h
    cases he
    refine ⟨rfl, fun hs => (xmalloc_keeps hc hs hp).weaken (Perm.subperm ?_)⟩
    rw [Server.owned, Server.owned, flatMap_append, ← append_assoc]
    exact perm_append_comm

theorem enum_media_serves (hc : c.Gives) {object : String} {file : Option SDFile} {r : Option ℕ}
    (h : enum_media c object file s = some (r, s')) : Serves s s' := by
  obtain ⟨⟨i, s₁⟩, hfind, h⟩ := Option.bind_eq_some_iff.mp h
  obtain ⟨d, hd, h⟩ := Option.bind_eq_some_iff.mp h
  obtain ⟨⟨ok, d', s₂⟩, hparse, he⟩ := Option.map_eq_some_iff.mp h
  obtain ⟨hlends, hptr⟩ := parse_SD_file_lends hc hparse
  have hserves := (findDescr_serves hc hfind).trans hlends.serves
  have hd₂ : s₂.sdGlobalList[i]? = some d := by rw [hlends.descrs, hd]
  have howned : d'.owned = d.owned := by rw [SDDescr.owned, SDDescr.owned, hptr]
  have hsplit : s₂.owned ~ d.ptr :: (s₂.rtspList.flatMap RTSPBuffer.owned ++
      (s₂.sdGlobalList.eraseIdx i).flatMap SDDescr.owned) :=
    ((flatMap_perm_eraseIdx SDDescr.owned hd₂).append_left _).trans perm_middle
  dsimp only at he
  split at he
  · cases he
    refine ⟨hserves.clients, fun hs => (hserves.sound hs).weaken (Perm.subperm ?_)⟩
    have hset := flatMap_set_perm (b := d') SDDescr.owned hd₂
    rw [howned] at hset
    exact (hset.trans (flatMap_perm_eraseIdx SDDescr.owned hd₂).symm).append_left _
  · cases he
    refine ⟨hserves.clients, fun hs => ?_⟩
    have hkeeps := (hserves.sound hs).weaken hsplit.symm.subperm
    rw [← hptr] at hkeeps
    exact hkeeps.xfree

theorem get_media_descr_serves (hc : c.Gives) {r : DescribeRequest} {ok : Bool}
    (h : get_media_descr c r s = some (ok, s')) : Serves s s' := by
  rw [get_media_descr] at h
  split at h
  · cases h
    exact (Lends.refl s).serves
  · obtain ⟨⟨i, s₁⟩, henum, h⟩ := Option.bind_eq_some_iff.mp h
    have hfirst := enum_media_serves hc henum
    cases i with
    | none =>
      cases h
      exact hfirst
    | some i =>
      obtain ⟨d, -, h⟩ := Option.bind_eq_some_iff.mp h
      split at h
      · cases h
        exact hfirst
      · obtain ⟨⟨j, s₂⟩, hagain, he⟩ := Option.map_eq_some_iff.mp h
        cases he
        exact hfirst.trans (enum_media_serves hc hagain)

theorem described_lends (hc : c.Gives)
    (h : (send_describe_reply c s.log).map (fun log => { s with log := log }) = some s') :
    Lends s s' := by
  obtain ⟨log, hlog, rfl⟩ := Option.map_eq_some_iff.mp h
  exact .of_log fun o ho => send_describe_reply_keeps hc ho hlog

theorem send_redirect_serves (hc : c.Gives) {r : DescribeRequest}
    (h : send_redirect_3xx c r s = some s') : Serves s s' := by
  obtain ⟨⟨i, s₁⟩, henum, h⟩ := Option.bind_eq_some_iff.mp h
  have hfirst := enum_media_serves hc henum
  cases i with
  | none => exact hfirst.trans (replied_lends hc h).serves
  | some i =>
    dsimp only at h
    split at h
    · exact hfirst.trans (described_lends hc h).serves
    · exact hfirst.trans (replied_lends hc h).serves

theorem RTSP_describe_serves (hc : c.Gives) {r : DescribeRequest}
    (h : RTSP_describe c r s = some s') : Serves s s' := by
  obtain ⟨⟨ok, s₁⟩, hdescr, h⟩ := Option.bind_eq_some_iff.mp h
  have hfirst := get_media_descr_serves hc hdescr
  dsimp only at h
  split at h
  · exact hfirst.trans (replied_lends hc h).serves
  · split at h
    · exact hfirst.trans (send_redirect_serves hc h)
    · exact hfirst.trans (described_lends hc h).serves

end Calls

end Fenice.Memory
