import Fenice.Rtsp.Outcomes

/-!
# What a rejection is answered with

No check of a method ends it with the status 200.
-/

namespace Fenice.Rtsp
open Fenice.CString Fenice.Schedule

/-- No check ends with 200. -/
def Refuses {α : Type} (x : Checks α) : Prop :=
  ∀ r, x.run = some (.error r) → r.status ≠ 200

theorem Refuses.reject {α : Type} {status : ℕ} (rc : ℤ) (addon : Option String)
    (h : status ≠ 200) : Refuses (reject status rc addon : Checks α) := by
  intro r hr
  cases hr
  exact h

theorem Refuses.pure {α : Type} (a : α) : Refuses (Pure.pure a : Checks α) := by
  intro r hr
  cases hr

theorem Refuses.undefined {α : Type} : Refuses (undefined : Checks α) := by
  intro r hr
  cases hr

theorem Refuses.bind {α β : Type} {x : Checks α} {k : α → Checks β} (hx : Refuses x)
    (hk : ∀ a, Refuses (k a)) : Refuses (x >>= k) := by
  intro r hr
  rw [ExceptT.run_bind] at hr
  obtain ⟨y, hy, hr⟩ := Option.bind_eq_some_iff.mp hr
  cases y with
  | error e =>
    cases hr
    exact hx _ hy
  | ok a => exact hk a r hr

theorem Refuses.ite {α : Type} {c : Prop} [Decidable c] {x y : Checks α} (hx : Refuses x)
    (hy : Refuses y) : Refuses (if c then x else y) := by
  split
  · exact hx
  · exact hy

/-! ### Checks that several methods make -/

theorem requestUrl_refuses (rc : ℤ) (inp : Bytes) : Refuses (requestUrl rc inp) := by
  unfold requestUrl
  apply Refuses.bind
  · unfold scanUrl
    split
    · exact .pure _
    · exact .undefined
  · intro url
    split
    · exact .reject rc none (by decide)
    · exact .reject rc none (by decide)
    · exact .pure _

theorem noRelativePath_refuses (rc : ℤ) (object : Bytes) : Refuses (noRelativePath rc object) := by
  have hlast : Refuses (if (strstr object (lit "./")).isSome = true then reject 403 rc
      else Pure.pure () : Checks Unit) := .ite (.reject rc none (by decide)) (.pure _)
  unfold noRelativePath
  exact .ite (.bind (.reject rc none (by decide)) fun _ => hlast) hlast

theorem extension_refuses (rc : ℤ) (object : Bytes) : Refuses (extension rc object) := by
  unfold extension
  split
  · exact .pure _
  · exact .reject rc none (by decide)

theorem supported_refuses (rc : ℤ) (p : Bytes) : Refuses (supported rc p) := by
  unfold supported
  exact .ite (.reject rc none (by decide)) (.pure _)

theorem requestCseq_refuses (rc : ℤ) (number : Option ℕ) : Refuses (requestCseq rc number) := by
  unfold requestCseq
  split
  · exact .pure _
  · exact .reject rc none (by decide)

theorem requestSession_refuses (rc : ℤ) (inp : Bytes) {absent : Checks ℤ} (h : Refuses absent) :
    Refuses (requestSession rc inp absent) := by
  unfold requestSession
  split
  · exact .pure _
  · exact .reject _ none (by decide)
  · exact h

theorem sameSession_refuses (rc : ℤ) (rtsp : RTSPBuffer) (id : ℤ) :
    Refuses (sameSession rc rtsp id) := by
  unfold sameSession
  split
  · exact .reject _ none (by decide)
  · exact .ite (.pure _) (.reject _ none (by decide))

/-! ### The methods -/

theorem describeUrl_refuses (inp : Bytes) : Refuses (describeUrl inp) := by
  have haccept : ∀ u : Url, Refuses (do
      if (strstr inp hdrAccept).isSome && (strstr inp (lit "application/sdp")).isNone then
        reject 551 errNoerror
      pure u : Checks Url) := by
    intro u
    exact .ite (.bind (.reject _ _ (by decide)) fun _ => .pure _) (.pure _)
  unfold describeUrl
  refine .bind (requestUrl_refuses _ _) fun u => ?_
  refine .bind (noRelativePath_refuses _ _) fun _ => ?_
  refine .bind (extension_refuses _ _) fun p => ?_
  refine .bind (supported_refuses _ _) fun _ => ?_
  exact .ite (.bind (.reject _ _ (by decide)) fun _ => haccept u) (haccept u)

theorem describeResult_refuses (res : ℤ) : Refuses (describeResult res) := by
  have hlast : Refuses (if res = errParse ∨ res = errGeneric ∨ res = Schedule.errAlloc then
      reject 500 errNoerror else pure () : Checks Unit) := .ite (.reject _ _ (by decide)) (.pure _)
  unfold describeResult
  exact .ite (.bind (.reject _ _ (by decide)) fun _ => hlast) hlast

theorem redirectChecks_refuses (w : World) (object : Bytes) (st : Streams) :
    Refuses (redirectChecks w object st) := by
  unfold redirectChecks
  rcases enum_media st object w.file.again with ⟨res | d, st₁⟩
  · exact .reject _ _ (by decide)
  · exact .ite (.reject _ _ (by decide)) (.reject _ _ (by decide))

theorem redirectChecks_ne_ok (w : World) (object : Bytes) (st : Streams) :
    (redirectChecks w object st).run ≠ some (.ok ()) := by
  unfold redirectChecks
  rcases enum_media st object w.file.again with ⟨res | d, st₁⟩
  · intro h
    cases h
  · dsimp only
    split_ifs
    · intro h
      cases h
    · intro h
      cases h

theorem describeChecks_refuses (w : World) (inp : Bytes) (st : Streams) :
    Refuses (describeChecks w inp st) := by
  unfold describeChecks
  refine .bind (describeUrl_refuses _) fun u => ?_
  refine .bind (requestCseq_refuses _ _) fun n => ?_
  refine .bind (describeResult_refuses _) fun _ => ?_
  exact .ite (redirectChecks_refuses _ _ _) (.pure _)

theorem optionsChecks_refuses (inp : Bytes) : Refuses (optionsChecks inp) := by
  unfold optionsChecks
  exact .bind (requestCseq_refuses _ _) fun _ => .pure _

theorem setupUrl_refuses (inp : Bytes) : Refuses (setupUrl inp) := by
  unfold setupUrl
  apply Refuses.bind (requestUrl_refuses _ _)
  intro u
  apply Refuses.bind (noRelativePath_refuses _ _)
  intro _
  apply Refuses.bind (extension_refuses _ _)
  intro p
  apply Refuses.bind (supported_refuses _ _)
  intro _
  split
  · exact .reject _ none (by decide)
  · dsimp only
    split
    · exact .undefined
    · exact .pure _

theorem transportTokens_refuses (inp : Bytes) : Refuses (transportTokens inp) := by
  unfold transportTokens
  split
  · exact .reject _ _ (by decide)
  · split
    · exact .reject _ none (by decide)
    · exact .ite .undefined (.ite (.reject _ none (by decide)) (.pure _))

theorem clientPorts_refuses (tkn : Bytes) : Refuses (clientPorts tkn) := by
  unfold clientPorts
  repeat' split
  all_goals first | exact .pure _ | exact .undefined

theorem maxInterleaved_refuses (st : Streams) (list : List ℕ) : Refuses (maxInterleaved st list) := by
  induction list with
  | nil => exact .pure _
  | cons s rest ih =>
    unfold maxInterleaved
    split
    · exact .undefined
    · exact .bind ih fun _ => .pure _

theorem interleavedChannels_refuses (st : Streams) (list : List ℕ) (tkn : Bytes) :
    Refuses (interleavedChannels st list tkn) := by
  unfold interleavedChannels
  split
  · split
    · exact .undefined
    · exact .ite (.bind (Refuses.reject errGeneric _ (by decide)) fun _ => .pure _) (.pure _)
  · apply Refuses.bind (maxInterleaved_refuses st list)
    intro highest
    exact .ite (.bind (Refuses.reject errGeneric _ (by decide)) fun _ => .pure _) (.pure _)

theorem chooseTransport_refuses (w : World) (rtsp : RTSPBuffer) (st : Streams) (d m : ℕ)
    (tkns : List Bytes) : Refuses (chooseTransport w rtsp st d m tkns) := by
  unfold chooseTransport
  split
  · exact .reject _ _ (by decide)
  · unfold chooseUnicast
    apply Refuses.bind (clientPorts_refuses _)
    intro cli
    split
    · exact .reject _ none (by decide)
    · exact .pure _
  · exact .pure _
  · unfold chooseTcp
    apply Refuses.bind (interleavedChannels_refuses _ _ _)
    intro ⟨rtp, rtcp⟩
    dsimp only
    split
    · exact .pure _
    · exact .reject _ none (by decide)

theorem setupSession_refuses (w : World) (inp : Bytes) : Refuses (setupSession w inp) := by
  unfold setupSession
  split
  · split
    · exact .pure _
    · exact .reject _ none (by decide)
  · exact .pure _

theorem setupChecks_refuses (w : World) (inp : Bytes) (rtsp : RTSPBuffer) (st : Streams) :
    Refuses (setupChecks w inp rtsp st) := by
  unfold setupChecks
  apply Refuses.bind (setupUrl_refuses _)
  intro u
  split
  · exact .reject _ none (by decide)
  · unfold mediaChecks
    apply Refuses.bind
    · unfold setupMedia
      split
      · exact .pure _
      · exact .reject _ none (by decide)
    intro m
    apply Refuses.bind (requestCseq_refuses _ _)
    intro n
    apply Refuses.bind (transportTokens_refuses _)
    intro tkns
    apply Refuses.ite (.reject _ none (by decide))
    apply Refuses.bind (chooseTransport_refuses _ _ _ _ _ _)
    intro c
    apply Refuses.bind (setupSession_refuses _ _)
    intro _
    unfold copyChecks
    exact .ite (.reject _ none (by decide)) (.pure _)

theorem timeValue_refuses (p : Bytes) (timeTaken : Bool) :
    Refuses (match strstr p (lit "time") with
      | none => pure ()
      | some q =>
        if (timeTaken || (strchr q 61).isSome) = true then pure () else undefined : Checks Unit) := by
  split
  · exact .pure _
  · exact .ite (.pure _) .undefined

theorem rangeChecks_refuses (inp : Bytes) : Refuses (rangeChecks inp) := by
  unfold rangeChecks
  split
  · exact .pure _
  · rename_i p _
    have hk := timeValue_refuses p
    dsimp only
    split
    · split
      · exact .bind (.reject _ none (by decide)) hk
      · exact .ite (.bind (.pure _) hk) (.bind (.reject _ none (by decide)) hk)
    · refine .ite (.bind (.pure _) hk) (.ite (.bind (.pure _) hk) ?_)
      split
      · exact .bind (.pure _) hk
      · exact .bind .undefined hk

theorem playTarget_refuses (p : RTSPSession) (st : Streams) (t : Target) :
    Refuses (playTarget p st t) := by
  have hloop : ∀ x : Option Streams, Refuses (ExceptT.mk (x.map .ok) : Checks Streams) := by
    intro x r hr
    cases x with
    | none => cases hr
    | some st => cases hr
  cases t with
  | presentation => exact hloop _
  | aggregate => exact hloop _
  | file name =>
    unfold playTarget
    dsimp only
    split
    · exact .undefined
    · exact .reject _ none (by decide)
    · exact hloop _

theorem playChecks_refuses (inp : Bytes) (rtsp : RTSPBuffer) (st : Streams) :
    Refuses (playChecks inp rtsp st) := by
  unfold playChecks
  refine .bind (requestCseq_refuses _ _) fun n => .bind ?_ fun r => ?_
  · unfold playRequest
    refine .bind (rangeChecks_refuses inp) fun _ => ?_
    refine .bind (requestSession_refuses _ inp (.reject _ none (by decide))) fun id => ?_
    refine .bind (requestUrl_refuses _ inp) fun u => ?_
    exact .bind (noRelativePath_refuses _ _) fun _ => .bind (extension_refuses _ _) fun _ => .pure _
  · exact .bind (sameSession_refuses _ _ _) fun p =>
      .bind (playTarget_refuses p st _) fun _ => .pure _

theorem pausedObject_refuses (inp : Bytes) (object : Bytes) :
    Refuses (do
      noRelativePath errNoerror object
      match (strtok ⟨object, 0⟩ (lit "!")).1 with
      | none => undefined
      | some object =>
        let p ← extension errNoerror object
        supported errNoerror p
        requestSession errNoerror inp (pure (-1))) := by
  refine .bind (noRelativePath_refuses _ _) fun _ => ?_
  split
  · exact .undefined
  · exact .bind (extension_refuses _ _) fun p => .bind (supported_refuses _ p) fun _ =>
      requestSession_refuses _ inp (.pure _)

theorem pauseChecks_refuses (w : World) (inp : Bytes) (rtsp : RTSPBuffer) :
    Refuses (pauseChecks w inp rtsp) := by
  unfold pauseChecks
  refine .bind (requestCseq_refuses _ _) fun n => .bind ?_ fun id =>
    .bind (sameSession_refuses _ _ _) fun _ => .pure _
  unfold pauseRequest
  refine .bind (requestUrl_refuses _ inp) fun u => ?_
  have hk := pausedObject_refuses inp u.object
  exact .ite (.bind (.reject _ none (by decide)) fun _ => hk) hk

theorem teardownChecks_refuses (inp : Bytes) (rtsp : RTSPBuffer) :
    Refuses (teardownChecks inp rtsp) := by
  unfold teardownChecks
  refine .bind (requestCseq_refuses _ _) fun n => .bind ?_ fun r =>
    .bind (sameSession_refuses _ _ _) fun _ => .pure _
  unfold teardownRequest
  refine .bind (requestUrl_refuses _ inp) fun u => ?_
  refine .bind (noRelativePath_refuses _ _) fun _ => ?_
  refine .bind (extension_refuses _ _) fun p => .bind (supported_refuses _ p) fun _ => ?_
  exact .bind (requestSession_refuses _ inp (.pure _)) fun _ => .pure _

theorem handler_refuses (x : Handler) (w : World) (inp : Bytes) (rtsp : RTSPBuffer)
    (st : Streams) : Refuses (x.checks w inp rtsp st) := by
  cases x with
  | describe => exact describeChecks_refuses w inp st
  | options => exact optionsChecks_refuses inp
  | setup => exact setupChecks_refuses w inp rtsp st
  | play => exact playChecks_refuses inp rtsp st
  | pause => exact pauseChecks_refuses w inp rtsp
  | teardown => exact teardownChecks_refuses inp rtsp

end Fenice.Rtsp
