import Fenice.Memory.Ownership

/-!
# Runs that keep to the allocators (RTSP_setup.c, RTSP_teardown.c, schedule_connections.c)

A request, a new connection and one that is closed keep to the allocators as long as no block of
`xnew0` comes to `free` or `realloc` and no connection but the first one is released.
-/

namespace Fenice.Memory
open Fenice.Ledger Fenice.Run List

/-! ### SETUP -/

section Setup

variable {c : CLibrary} {s s' : Server} {p p' : RTSPBuffer} {k : ℕ}

theorem giveBuffer_lends (hc : c.Gives) {mapped : Bool × Bool} {m : Ptr} {me : MediaEntry}
    {ok : Bool} (h : giveBuffer c mapped m me s = some (ok, s')) : Lends s s' := by
  rw [giveBuffer] at h
  split at h
  · cases h
    exact .refl _
  · split at h
    · have hmap : ∀ o, Keeps 0 s.log o → Keeps 0 (OMSbuff_shm_map c mapped s.log).2 o :=
        fun o ho => OMSbuff_shm_map_keeps hc ho mapped
      split at h
      · rename_i log he
        rw [he] at hmap
        cases h
        exact .of_log hmap
      · rename_i b log he
        rw [he] at hmap
        cases h
        exact ⟨rfl, rfl, hmap⟩
    · obtain ⟨⟨b, buffer, log⟩, hnew, he⟩ := Option.map_eq_some_iff.mp h
      cases he
      exact ⟨rfl, rfl, fun o ho => OMSbuff_new_keeps hc ho hnew⟩

theorem mediacpy_lends (hc : c.Gives) {mapped : Bool × Bool} {out source m : Ptr} {ok : Bool}
    (h : mediacpy c mapped out source s = some (ok, m, s')) : Lends s s' := by
  obtain ⟨me, -, h⟩ := Option.bind_eq_some_iff.mp h
  split at h
  · cases h
    exact .refl _
  · split at h
    · obtain ⟨⟨ok', s₁⟩, hgive, he⟩ := Option.map_eq_some_iff.mp h
      cases he
      exact giveBuffer_lends hc hgive
    · obtain ⟨⟨ok', s₁⟩, hgive, he⟩ := Option.map_eq_some_iff.mp h
      cases he
      have hcopy : Lends s (s.setMedia out me) := .of_eq rfl rfl rfl
      exact hcopy.trans (giveBuffer_lends hc hgive)

theorem schedule_add_lends (r : Ptr) (dad : Bool) (s : Server) :
    Lends s (schedule_add r dad s).2 := by
  rw [schedule_add]
  split
  · exact .of_eq rfl rfl rfl
  · exact .refl _

theorem startSession_lends (hc : c.Gives) {mapped : Bool × Bool} {r m source : Ptr} {dad : Bool}
    (h : startSession c mapped r m source dad s = some s') : Lends s s' := by
  have hset : ∀ (t : Server) (r' : RTPSession), Lends t (t.setRtp r (some r')) :=
    fun t r' => .of_eq rfl rfl rfl
  rw [startSession] at h
  split at h
  · obtain ⟨⟨ok, m', s₁⟩, hcopy, h⟩ := Option.bind_eq_some_iff.mp h
    have hcopied := mediacpy_lends hc hcopy
    cases ok with
    | false => exact (hcopied.trans (hset _ _)).trans (replied_lends hc h)
    | true =>
      cases h
      exact (hcopied.trans (schedule_add_lends r true s₁)).trans (hset _ _)
  · cases h
    exact (schedule_add_lends r false s).trans (hset _ _)

theorem sessionFor_keeps (hc : c.Gives) {log log' : Log} {q q' : RTSPSession} {o : List Ptr}
    (h : Keeps 0 log (p.owned ++ o)) (hs : sessionFor c p log = some (q, log'))
    (hptr : q'.ptr = q.ptr) :
    Keeps 0 log' (({ p with sessionList := some q' } : RTSPBuffer).owned ++ o) := by
  rw [sessionFor] at hs
  rw [RTSPBuffer.owned] at h ⊢
  split at hs
  · rename_i q₀ hlist
    cases hs
    simpa [hlist, hptr] using h
  · rename_i hlist
    obtain ⟨⟨a, log₁⟩, ha, he⟩ := Option.map_eq_some_iff.mp hs
    cases he
    have hnew := xmalloc_keeps hc h ha
    refine hnew.weaken (Perm.subperm ?_)
    simp only [hlist, Option.map_none, Option.map_some, Option.toList_none, Option.toList_some,
      hptr, append_nil, append_assoc, singleton_append]
    exact perm_middle

theorem chooseTransport_keeps (hc : c.Gives) {offer : Offer} {log log' : Log} {dad : Option Bool}
    (hpairs : ∀ a b, offer = .tcp true a b → a = true ∧ b = true)
    (h : chooseTransport c offer p log = some (dad, p', log')) :
    p'.owned = p.owned ∧ ∀ o, Keeps 0 log o → Keeps 0 log' o := by
  cases offer with
  | unsupported | noPorts =>
    obtain ⟨log₁, hreply, he⟩ := Option.map_eq_some_iff.mp h
    cases he
    exact ⟨rfl, fun o ho => scratch_keeps hc ho hreply⟩
  | avp d =>
    cases h
    exact ⟨rfl, fun o => id⟩
  | tcp fits rtpPair rtcpPair =>
    obtain ⟨⟨a, log₁⟩, ha, h⟩ := Option.bind_eq_some_iff.mp h
    cases fits with
    | false =>
      obtain ⟨log₂, hreply, he⟩ := Option.map_eq_some_iff.mp h
      cases he
      exact ⟨rfl, fun o ho => scratch_keeps hc (xmalloc_keeps hc ho ha).forget hreply⟩
    | true =>
      obtain ⟨⟨b, log₂⟩, hb, h⟩ := Option.bind_eq_some_iff.mp h
      obtain ⟨rfl, rfl⟩ := hpairs _ _ rfl
      cases h
      exact ⟨rfl, fun o ho => (xmalloc_keeps hc (xmalloc_keeps hc ho ha).forget hb).forget⟩

theorem addSession_sound (hc : c.Gives) {mapped : Bool × Bool} {p₀ : RTSPBuffer} {source : Ptr}
    {dad : Bool} (hk : s.rtspList[k]? = some p₀) (hs : Keeps 0 s.log (p.owned ++ s.ownedBeside k))
    (h : addSession c mapped k p source dad s = some s') : s'.Sound := by
  obtain ⟨⟨q, log₁⟩, hq, h⟩ := Option.bind_eq_some_iff.mp h
  obtain ⟨⟨r, log₂⟩, hr, h⟩ := Option.bind_eq_some_iff.mp h
  obtain ⟨⟨m, log₃⟩, hm, h⟩ := Option.bind_eq_some_iff.mp h
  let q' : RTSPSession := { q with rtpSession := q.rtpSession ++ [r] }
  have howned := sessionFor_keeps hc hs hq (rfl : q'.ptr = q.ptr)
  have hboth := (xmalloc_keeps hc (xmalloc_keeps hc howned hr).forget hm).forget
  let s₁ : Server := { s with log := log₃ }.setMedia m {}
  have hadded : (s₁.setClient k { p with sessionList := some q' }).Sound :=
    Server.sound_setClient (s := s₁) hk hboth
  exact (startSession_lends hc h).serves.sound hadded

theorem RTSP_setup_sound (hc : c.Gives) {r : SetupRequest} (hk : s.rtspList[k]? = some p)
    (hpairs : ∀ a b, r.offer = .tcp true a b → a = true ∧ b = true) (hs : s.Sound)
    (h : RTSP_setup c r k p s = some s') : s'.Sound := by
  rw [RTSP_setup] at h
  split at h
  · exact (replied_lends hc h).serves.sound hs
  · obtain ⟨⟨i, s₁⟩, henum, h⟩ := Option.bind_eq_some_iff.mp h
    have hserves := enum_media_serves hc henum
    have hs₁ := hserves.sound hs
    have hk₁ : s₁.rtspList[k]? = some p := by rw [hserves.clients, hk]
    cases i with
    | none => exact (replied_lends hc h).serves.sound hs₁
    | some i =>
      obtain ⟨d, -, h⟩ := Option.bind_eq_some_iff.mp h
      split at h
      · exact (replied_lends hc h).serves.sound hs₁
      · split at h
        · exact (replied_lends hc h).serves.sound hs₁
        · obtain ⟨⟨dad, p', log⟩, hchoose, h⟩ := Option.bind_eq_some_iff.mp h
          obtain ⟨howned, hkeeps⟩ := chooseTransport_keeps hc hpairs hchoose
          cases dad with
          | none =>
            cases h
            exact hkeeps _ hs₁
          | some dad =>
            have hp' : Keeps 0 log (p'.owned ++ s₁.ownedBeside k) := by
              rw [howned]
              exact hkeeps _ ((Server.sound_iff hk₁).mp hs₁)
            dsimp only at h
            split at h
            · have hset : (({ s₁ with log := log } : Server).setClient k p').Sound :=
                Server.sound_setClient (s := { s₁ with log := log }) hk₁ hp'
              exact (replied_lends hc h).serves.sound hset
            · exact addSession_sound (s := { s₁ with log := log }) hc hk₁ hp' h

end Setup

/-! ### PLAY, PAUSE and TEARDOWN -/

section Control

variable {c : CLibrary} {s s' : Server}

theorem schedule_start_lends (hc : c.Gives) {id : Option ℕ} (h : schedule_start c id s = some s') :
    Lends s s' := by
  obtain ⟨p, -, h⟩ := Option.bind_eq_some_iff.mp h
  obtain ⟨r, -, h⟩ := Option.bind_eq_some_iff.mp h
  obtain ⟨me, -, h⟩ := Option.bind_eq_some_iff.mp h
  obtain ⟨b, -, h⟩ := Option.bind_eq_some_iff.mp h
  obtain ⟨buffer, -, h⟩ := Option.bind_eq_some_iff.mp h
  obtain ⟨⟨cons, log⟩, hcons, rfl⟩ := Option.map_eq_some_iff.mp h
  exact ⟨rfl, rfl, fun o ho => (xmalloc_keeps hc ho hcons).forget⟩

theorem schedule_resume_lends {id : Option ℕ} (h : schedule_resume id s = some s') :
    Lends s s' := by
  obtain ⟨p, -, h⟩ := Option.bind_eq_some_iff.mp h
  obtain ⟨r, -, rfl⟩ := Option.map_eq_some_iff.mp h
  exact .of_eq rfl rfl rfl

theorem startOrResume_lends (hc : c.Gives) {p : Ptr} (h : startOrResume c p s = some s') :
    Lends s s' := by
  obtain ⟨r, -, h⟩ := Option.bind_eq_some_iff.mp h
  split at h
  · exact schedule_start_lends hc h
  · split at h
    · cases h
      exact .refl _
    · exact schedule_resume_lends h

theorem playLoop_lends (hc : c.Gives) {named : Ptr → Bool} {l : List Ptr}
    (h : playLoop c named l s = some s') : Lends s s' := by
  induction l generalizing s with
  | nil =>
    cases h
    exact .refl _
  | cons p l ih =>
    obtain ⟨s₁, hone, hrest⟩ := Option.bind_eq_some_iff.mp h
    have hfirst : Lends s s₁ := by
      split at hone
      · exact startOrResume_lends hc hone
      · cases hone
        exact .refl _
    exact hfirst.trans (ih hrest)

theorem RTSP_play_lends (hc : c.Gives) {r : PlayRequest} {q : RTSPSession}
    (h : RTSP_play c r q s = some s') : Lends s s' := by
  rw [RTSP_play] at h
  split at h
  · obtain ⟨session, -, h⟩ := Option.bind_eq_some_iff.mp h
    exact schedule_start_lends hc h
  · exact playLoop_lends hc h

theorem pauseLoop_lends {l : List Ptr} (h : pauseLoop l s = some s') : Lends s s' := by
  induction l generalizing s with
  | nil =>
    cases h
    exact .refl _
  | cons p l ih =>
    obtain ⟨r, -, hrest⟩ := Option.bind_eq_some_iff.mp h
    have hpause : Lends s (s.setRtp p (some { r with pause := true })) := .of_eq rfl rfl rfl
    exact hpause.trans (ih hrest)

theorem removeLoop_lends {l : List Ptr} (h : removeLoop l s = some s') : Lends s s' := by
  induction l generalizing s with
  | nil =>
    cases h
    exact .refl _
  | cons p l ih =>
    obtain ⟨r, -, h⟩ := Option.bind_eq_some_iff.mp h
    obtain ⟨s₁, hremove, hrest⟩ := Option.bind_eq_some_iff.mp h
    obtain ⟨i, -, rfl⟩ := Option.map_eq_some_iff.mp hremove
    have hentry : Lends s { s with sched := s.sched.modify i fun e => { e with valid := false } } :=
      .of_eq rfl rfl rfl
    exact hentry.trans (ih hrest)

theorem RTSP_teardown_sound {named : Ptr → Bool} {k : ℕ} {p : RTSPBuffer} {q : RTSPSession}
    (hk : s.rtspList[k]? = some p) (hq : p.sessionList = some q)
    (hstays : ∃ r ∈ q.rtpSession, named r = false) (hs : s.Sound)
    (h : RTSP_teardown named k p q s = some s') : s'.Sound := by
  obtain ⟨s₁, hremove, rfl⟩ := Option.map_eq_some_iff.mp h
  have hlends := removeLoop_lends hremove
  have hk₁ : s₁.rtspList[k]? = some p := by rw [hlends.clients, hk]
  have hkeeps := (Server.sound_iff hk₁).mp (hlends.serves.sound hs)
  split
  · rename_i hnone
    obtain ⟨r, hr, hname⟩ := hstays
    have hgone := filter_eq_nil_iff.mp hnone r hr
    simp [hname] at hgone
  · have howned : ∀ rest, ({ p with
        sessionList := some { q with rtpSession := rest } } : RTSPBuffer).owned = p.owned := by
      intro rest
      rw [RTSPBuffer.owned, RTSPBuffer.owned, hq]
      rfl
    refine Server.sound_setClient hk₁ ?_
    rw [howned]
    exact hkeeps

end Control

/-! ### Connections -/

section Connections

variable {c : CLibrary} {s s' : Server}

theorem RTSP_initserver_keeps (hc : c.Gives) {log log' : Log} {q : RTSPSession} {o : List Ptr}
    (h : Keeps 0 log o) (hq : RTSP_initserver c log = some (q, log')) :
    Keeps 0 log' (q.ptr :: o) := by
  obtain ⟨⟨a, log₁⟩, ha, he⟩ := Option.map_eq_some_iff.mp hq
  cases he
  exact xmalloc_keeps hc h ha

theorem add_client_sound (hc : c.Gives) (hs : s.Sound) (h : add_client c s = some s') :
    s'.Sound := by
  rw [add_client] at h
  split at h
  · rename_i hnone
    obtain ⟨⟨p, log₁⟩, hp, h⟩ := Option.bind_eq_some_iff.mp h
    obtain ⟨⟨q, log₂⟩, hq, he⟩ := Option.map_eq_some_iff.mp h
    cases he
    have hboth := RTSP_initserver_keeps hc (xmalloc_keeps hc hs hp) hq
    refine hboth.weaken (Perm.subperm ?_)
    rw [Server.owned, Server.owned, hnone]
    exact Perm.swap _ _ _
  · rename_i p₀ l hlist
    split at h
    · cases h
      exact hs
    · rename_i p log₁ hp
      obtain ⟨⟨q, log₂⟩, hq, he⟩ := Option.map_eq_some_iff.mp h
      cases he
      have hplain : Keeps 0 log₁ s.owned := by
        have := malloc_keeps hc hs
        rwa [hp] at this
      refine (RTSP_initserver_keeps hc hplain hq).weaken (Perm.subperm ?_)
      rw [Server.owned, Server.owned, flatMap_append, append_assoc]
      exact perm_middle

theorem closeSession_keeps {p : RTSPBuffer} {k : ℕ} (hk : s.rtspList[k]? = some p)
    (hs : s.Sound) (hfirst : p.first = true) (h : closeSession p.sessionList s = some s') :
    Keeps 0 s'.log (p.ptr :: s'.ownedBeside k) := by
  have hkeeps := (Server.sound_iff hk).mp hs
  rw [RTSPBuffer.owned, if_pos hfirst] at hkeeps
  cases hlist : p.sessionList with
  | none =>
    rw [hlist] at h hkeeps
    cases h
    exact hkeeps
  | some q =>
    rw [hlist] at h hkeeps
    obtain ⟨s₁, hremove, rfl⟩ := Option.map_eq_some_iff.mp h
    have hlends := removeLoop_lends hremove
    have hbeside : s₁.ownedBeside k = s.ownedBeside k := by
      rw [Server.ownedBeside, Server.ownedBeside, hlends.clients, hlends.descrs]
    have hswap := (hlends.keeps _ hkeeps).weaken (Perm.swap p.ptr q.ptr _).subperm
    have hfreed := hswap.xfree
    rw [← hbeside] at hfreed
    exact hfreed

theorem closeConnection_sound (hc : c.Gives) {k : ℕ} {replies : Bool}
    (hfirst : ∀ p ∈ s.rtspList[k]?, p.first = true) (hs : s.Sound)
    (h : closeConnection c k replies s = some s') : s'.Sound := by
  obtain ⟨p, hk, h⟩ := Option.bind_eq_some_iff.mp h
  obtain ⟨s₁, hreply, h⟩ := Option.bind_eq_some_iff.mp h
  obtain ⟨s₂, hsession, rfl⟩ := Option.map_eq_some_iff.mp h
  have hlends : Lends s s₁ := by
    split at hreply
    · exact replied_lends hc hreply
    · cases hreply
      exact .refl _
  have hk₁ : s₁.rtspList[k]? = some p := by rw [hlends.clients, hk]
  exact (closeSession_keeps hk₁ (hlends.serves.sound hs) (hfirst p hk) hsession).xfree

theorem fork_sound (hc : c.Gives) (hs : s.Sound) (h : step c s .fork = some s') : s'.Sound := by
  have hchild : ({ s with rtspList := [], sched := .replicate 100 {} } : Server).Sound :=
    Keeps.weaken hs (sublist_append_right _ _).subperm
  exact add_client_sound hc hchild h

end Connections

/-! ### Runs -/

/-- Both `socketpair` calls of a SETUP succeed, a TEARDOWN leaves an RTP session, and only the
connection from `xnew0` is closed. No session that is due plays, whose first turn sends RTCP
packets, and none that is removed is destroyed. -/
def Proper (s : Server) : Event → Prop
  | .connect | .fork => True
  | .request k _ r =>
    match r with
    | .setup r => ∀ a b, r.offer = .tcp true a b → a = true ∧ b = true
    | .teardown named =>
      ∀ p ∈ s.rtspList[k]?, ∀ q ∈ p.sessionList, ∃ r ∈ q.rtpSession, named r = false
    | _ => True
  | .close k _ => ∀ p ∈ s.rtspList[k]?, p.first = true
  | .visit i _ => ∀ e ∈ s.sched[i]?, ∀ p ∈ e.rtpSession, ∀ r ∈ s.rtp p,
    e.valid = true → r.pause = true
  | .sweep i => ∀ e ∈ s.sched[i]?, ∀ p ∈ e.rtpSession, ∀ r ∈ s.rtp p,
    e.valid = false → r.isMulticastDad = false

section Runs

variable {c : CLibrary} {s s' : Server}

theorem request_sound (hc : c.Gives) {k : ℕ} {url : Option Bool} {r : Request}
    (hr : Proper s (.request k url r)) (hs : s.Sound)
    (h : step c s (.request k url r) = some s') : s'.Sound := by
  obtain ⟨p, hk, h⟩ := Option.bind_eq_some_iff.mp h
  obtain ⟨s₁, hparsed, h⟩ := Option.bind_eq_some_iff.mp h
  have hlends := parsed_lends hc hparsed
  have hs₁ := hlends.serves.sound hs
  have hk₁ : s₁.rtspList[k]? = some p := by rw [hlends.clients, hk]
  cases hlist : p.sessionList with
  | none =>
    rw [hlist] at h
    cases r with
    | refused => exact (replied_lends hc h).serves.sound hs₁
    | answered | describe r | setup r | play r | pause | teardown named =>
      cases h
      exact hs₁
  | some q =>
    rw [hlist] at h
    cases r with
    | refused => exact (replied_lends hc h).serves.sound hs₁
    | answered =>
      cases h
      exact hs₁
    | describe r => exact (RTSP_describe_serves hc h).sound hs₁
    | setup r => exact RTSP_setup_sound hc hk₁ hr hs₁ h
    | play r => exact (RTSP_play_lends hc h).serves.sound hs₁
    | pause => exact (pauseLoop_lends h).serves.sound hs₁
    | teardown named => exact RTSP_teardown_sound hk₁ hlist (hr p hk q hlist) hs₁ h

theorem visit_same {i : ℕ} {v : Visit} (hv : Proper s (.visit i v))
    (h : step c s (.visit i v) = some s') : s' = s := by
  obtain ⟨e, he, h⟩ := Option.bind_eq_some_iff.mp h
  split at h
  · cases h
    rfl
  · rename_i hvalid
    obtain ⟨p, hp, h⟩ := Option.bind_eq_some_iff.mp h
    obtain ⟨r, hr, h⟩ := Option.bind_eq_some_iff.mp h
    rw [if_pos (hv e he p hp r hr (by simpa using hvalid))] at h
    cases h
    rfl

theorem sweep_same {i : ℕ} (hi : Proper s (.sweep i)) (h : step c s (.sweep i) = some s') :
    s' = s := by
  obtain ⟨e, he, h⟩ := Option.bind_eq_some_iff.mp h
  split at h
  · cases h
    rfl
  · cases h
    rfl
  · rename_i p hvalid hp
    obtain ⟨r, hr, h⟩ := Option.bind_eq_some_iff.mp h
    have hchild := hi e he p hp r hr hvalid
    rw [hchild] at h
    cases h
    rfl

theorem Server.Sound.step (hc : c.Gives) {e : Event} (hs : s.Sound) (he : Proper s e)
    (h : step c s e = some s') : s'.Sound := by
  cases e with
  | connect => exact add_client_sound hc hs h
  | fork => exact fork_sound hc hs h
  | request k url r => exact request_sound hc he hs h
  | close k replies => exact closeConnection_sound hc he hs h
  | visit i v => exact visit_same he h ▸ hs
  | sweep i => exact sweep_same he h ▸ hs

theorem Server.sound_init : Server.init.Sound := .nil

theorem run_sound (hc : c.Gives) {es : List Event}
    (hrun : GuardedRun (step c) Proper Server.init es s) : s.Sound :=
  hrun.invariant (fun _ _ _ hs he h => Server.Sound.step hc hs he h) Server.sound_init

/-- Of a run whose steps are all proper every block goes back to its allocator. -/
theorem keeps_to_allocators (hc : c.Gives) {site : List (Call Ptr) → Site} {es : List Event}
    (hrun : GuardedRun (step c) Proper Server.init es s) (hfits : TableFits site s.log) :
    Disciplined site s.log :=
  disciplined_of_keeps (run_sound hc hrun) hfits

/-- A C library that gives out the blocks one above the other. -/
def stacked : CLibrary where
  malloc log :=
    let top := (inUse log).foldr (fun p top => max p.toNat top) 0 + 16
    if top < 2 ^ 64 then some (BitVec.ofNat 64 top) else none
  realloc _ _ := none

theorem le_top {l : List Ptr} {p : Ptr} (hp : p ∈ l) :
    p.toNat ≤ l.foldr (fun p top => max p.toNat top) 0 := by
  induction l with
  | nil => cases hp
  | cons q l ih =>
    rw [foldr_cons]
    rcases mem_cons.mp hp with rfl | hp
    · exact le_max_left _ _
    · exact (ih hp).trans (le_max_right _ _)

theorem stacked_gives : stacked.Gives := by
  intro log p hp
  simp only [stacked, Option.ite_none_right_eq_some, Option.some.injEq] at hp
  obtain ⟨htop, rfl⟩ := hp
  have hnat := BitVec.toNat_ofNat _ 64 |>.trans (Nat.mod_eq_of_lt htop)
  refine ⟨fun hnull => ?_, fun hin => ?_⟩
  · rw [hnull] at hnat
    cases hnat
  · have hle := le_top hin
    omega

/-- A connection comes and goes. -/
theorem open_close_keeps : ∃ s, exec (step stacked) Server.init [.connect, .close 0 false] =
    some s ∧ Disciplined (fun _ => ⟨"", 0, 16⟩) s.log := by
  let s : Server := { Server.init with log := [.xalloc 32, .xalloc 16], rtspList :=
    [{ ptr := 16, first := true, sessionList := some { ptr := 32 } }] }
  let s' : Server := { s with
    log := [.xfree 16, .xfree 32, .xalloc 32, .xalloc 16], rtspList := [] }
  have hconnect : step stacked Server.init .connect = some s := by rfl
  have hclose : step stacked s (.close 0 false) = some s' := by rfl
  have hfirst : Proper s (.close 0 false) := by
    intro p hp
    cases hp
    rfl
  have hrun : GuardedRun (step stacked) Proper Server.init [.connect, .close 0 false] s' :=
    .cons trivial hconnect (.cons hfirst hclose (.nil _))
  -- the connection and its session have homes of their own
  have hhomes : ∀ p q, .xalloc p ∈ s'.log → .xalloc q ∈ s'.log → home p = home q → p = q := by
    intro p q hp hq
    have hne : home 32 ≠ home 16 := by decide +kernel
    rcases (by simpa [s'] using hp : p = 32 ∨ p = 16) with rfl | rfl <;>
      rcases (by simpa [s'] using hq : q = 32 ∨ q = 16) with rfl | rfl
    · exact fun _ => rfl
    · exact fun he => absurd he hne
    · exact fun he => absurd he hne.symm
    · exact fun _ => rfl
  have hsound := run_sound stacked_gives hrun
  have hfits : TableFits (fun _ => ⟨"", 0, 16⟩) s'.log :=
    (tableFits_of_homes hsound.fresh hsound.paired (by decide) hhomes).1
  exact ⟨s', hrun.exec_eq, keeps_to_allocators stacked_gives hrun hfits⟩

/-- The node of the second connection comes from `calloc`. -/
theorem second_connection_aborts : ¬ ∀ (c : CLibrary) (site : List (Call Ptr) → Site)
    (es : List Event) (s : Server), c.Gives → exec (step c) Server.init es = some s →
      Disciplined site s.log := by
  intro hall
  have hrun : (exec (step stacked) Server.init [.connect, .connect, .close 1 false]).map
      Server.log = some [.xfree 48, .xfree 64, .xalloc 64, .alloc 48, .xalloc 32, .xalloc 16] := by
    rfl
  obtain ⟨s, hs, hlog⟩ := Option.map_eq_some_iff.mp hrun
  have hpaired := (hall stacked (fun _ => ⟨"", 0, 16⟩) _ s stacked_gives hs).paired
  rw [hlog] at hpaired
  have htracked : (48 : Ptr) ∉
      tracked [.xfree 64, .xalloc 64, .alloc 48, .xalloc 32, .xalloc 16] := by decide
  exact htracked hpaired.1

end Runs

end Fenice.Memory
