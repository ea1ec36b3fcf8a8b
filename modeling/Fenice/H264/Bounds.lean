import Fenice.H264.AnnexB
import Mathlib.Data.Nat.Find

/-!
# The arrays of get_one_NALU_payload (read_h264.c)

The loop that looks for the next start code does not know the size of `buff`. Where it finds one at
once, `nalu->len` is the unsigned value of -1.
-/

namespace Fenice.H264

/-- What the loop reads from a position on: the rest of the file, what `fgetc` returns at its end,
and the file from its start. -/
def ahead (bytes : List UInt8) (pos : ℕ) : List UInt8 := bytes.drop pos ++ 0xff :: bytes

/-- Behind a start code at the position there is another one within the size of `buff`, and not
immediately. -/
def Bounded (bytes : List UInt8) (pos : ℕ) : Prop :=
  ∀ code, (code = startCode3 ∨ code = startCode4) → code <+: bytes.drop pos →
    startCode3 <:+: (ahead bytes (pos + code.length)).take (maxFrameSize - code.length) ∧
      ¬ startCode3 <+: ahead bytes (pos + code.length) ∧
      ¬ startCode4 <+: ahead bytes (pos + code.length)

theorem findStart_length {room : ℕ} {buff all : List UInt8} {f g : File} {n : ℕ}
    (h : findStart room buff f = some (all, g, n)) : all.length ≤ buff.length + room := by
  induction room generalizing buff f with
  | zero => cases h
  | succ room ih =>
    rw [findStart] at h
    dsimp only at h
    split_ifs at h
    · cases h
      simp
    · cases h
      simp
    · have := ih h
      simp only [List.length_append, List.length_cons, List.length_nil] at this
      omega

section Payload

variable {pre post code s : List UInt8}

theorem feeds_ahead {l : List UInt8} (h : l <+: post ++ 0xff :: (pre ++ post)) :
    ∃ g, Feeds ⟨pre ++ post, pre.length, false⟩ l g := by
  obtain ⟨t, ht⟩ := h
  rcases List.append_eq_append_iff.mp ht with ⟨u, hpost, -⟩ | ⟨u, rfl, hu⟩
  · have hfeeds := feeds_inside pre l u
    rw [← hpost] at hfeeds
    exact ⟨_, hfeeds⟩
  · have hpost := feeds_inside pre post []
    rw [List.append_nil] at hpost
    cases u with
    | nil => exact ⟨_, by simpa using hpost⟩
    | cons x u =>
      have hlen : pre.length + post.length = (pre ++ post).length := by rw [List.length_append]
      obtain ⟨rfl, hfile⟩ := List.cons.inj hu
      rw [hlen] at hpost
      cases u with
      | nil =>
        refine ⟨⟨pre ++ post, (pre ++ post).length, true⟩, hpost.append (.cons ?_ (.nil _))⟩
        simp [File.nextByte, File.fgetc]
      | cons x u =>
        have hfile : pre ++ post = x :: u ++ t := hfile
        have hstart := feeds_inside [] (x :: u) t
        rw [List.nil_append, ← hfile] at hstart
        exact ⟨_, hpost.append (feeds_around (List.cons_ne_nil x u) hstart)⟩

theorem three_le {l : List UInt8} (hc : code = startCode3 ∨ code = startCode4) (hl : l ≠ [])
    (h : startCode3 <:+ code ++ l) : 3 ≤ l.length ∧ startCode3 <:+ l := by
  match l with
  | [] => exact absurd rfl hl
  | [a] => rcases hc with rfl | rfl <;> simp [startCode3, startCode4, List.suffix_cons_iff] at h
  | [a, b] => rcases hc with rfl | rfl <;> simp [startCode3, startCode4, List.suffix_cons_iff] at h
  | a :: b :: d :: l =>
    exact ⟨by simp, List.suffix_of_suffix_length_le h (List.suffix_append _ _) (by simp [startCode3])⟩

theorem suffix_eq {l : List UInt8} (h : l <:+ s) (hlen : s.length ≤ l.length) : l = s :=
  h.eq_of_length_le hlen

theorem first_code (hc : code = startCode3 ∨ code = startCode4) (h : startCode3 <:+: s) :
    ∃ m, 3 ≤ m ∧ m ≤ s.length ∧ startCode3 <:+ code ++ s.take m ∧
      ∀ k, 0 < k → k < m → ¬ startCode3 <:+ code ++ s.take k := by
  classical
  obtain ⟨u, v, huv⟩ := h
  have hex : ∃ m, 0 < m ∧ m ≤ s.length ∧ startCode3 <:+ code ++ s.take m := by
    refine ⟨(u ++ startCode3).length, by simp [startCode3], ?_, ?_⟩
    · rw [← huv, @List.length_append _ (u ++ startCode3)]
      omega
    · rw [← huv, List.take_left, ← List.append_assoc]
      exact List.suffix_append _ _
  obtain ⟨hpos, hle, hend⟩ := Nat.find_spec hex
  have hne : s.take (Nat.find hex) ≠ [] := by
    intro hnil
    have := congrArg List.length hnil
    simp only [List.length_take, List.length_nil] at this
    omega
  have hthree := (three_le hc hne hend).1
  rw [List.length_take] at hthree
  refine ⟨Nat.find hex, by omega, hle, hend, fun k hk hlt hcode => ?_⟩
  exact Nat.find_min hex hlt ⟨hk, by omega, hcode⟩

theorem prefix_post {code' t : List UInt8} (hc : code' = startCode3 ∨ code' = startCode4)
    (h : code' <+: post ++ 0xff :: t) : code' <+: post := by
  obtain ⟨v, hv⟩ := h
  rcases List.append_eq_append_iff.mp hv with ⟨u, rfl, -⟩ | ⟨u, hcode, hu⟩
  · exact List.prefix_append _ _
  · cases u with
    | nil => exact ⟨[], by rw [hcode, List.append_nil, List.append_nil]⟩
    | cons x u =>
      obtain ⟨rfl, -⟩ := List.cons.inj hu
      have hmem : (0xff : UInt8) ∈ code' := by rw [hcode]; simp
      rcases hc with rfl | rfl <;> simp [startCode3, startCode4] at hmem

/-- Behind a start code the call stays inside its arrays exactly if there is another one within
the size of `buff`, and not immediately. -/
theorem readPayload_inside (hc : code = startCode3 ∨ code = startCode4)
    (hcode : ∃ u, pre = u ++ code) :
    readPayload code ⟨pre ++ post, pre.length, false⟩ ≠ .ran ↔
      startCode3 <:+: (post ++ 0xff :: (pre ++ post)).take (maxFrameSize - code.length) ∧
        ¬ startCode3 <+: post ++ 0xff :: (pre ++ post) ∧
        ¬ startCode4 <+: post ++ 0xff :: (pre ++ post) := by
  have hin : startCode3 <:+: post ++ 0xff :: (pre ++ post) := by
    obtain ⟨u, rfl⟩ := hcode
    have hsuf : startCode3 <:+ code := by
      rcases hc with rfl | rfl
      · exact List.suffix_rfl
      · exact ⟨[0], rfl⟩
    obtain ⟨v, hv⟩ := hsuf
    exact ⟨post ++ 0xff :: (u ++ v), post, by simp [← hv]⟩
  generalize hs : post ++ 0xff :: (pre ++ post) = s at hin ⊢
  obtain ⟨m, hthree, hle, hend, hfirst⟩ := first_code hc hin
  have hlen : (s.take m).length = m := by rw [List.length_take]; omega
  have hne : s.take m ≠ [] := by
    intro hnil
    rw [hnil, List.length_nil] at hlen
    omega
  have hfind : ∀ g, Feeds ⟨pre ++ post, pre.length, false⟩ (s.take m) g → ∀ room, m ≤ room →
      findStart room code ⟨pre ++ post, pre.length, false⟩ =
        some (code ++ s.take m, g, if startCode4 <:+ code ++ s.take m then 4 else 3) := by
    intro g hfeeds room hroom
    refine findStart_feeds hfeeds (by omega) hne code (fun l₁ l₂ he h₁ h₂ => ?_) hend
    have hstarts : l₁ = s.take l₁.length := by
      have hl : l₁ <+: s := ⟨l₂ ++ s.drop m, by rw [← List.append_assoc, ← he, List.take_append_drop]⟩
      exact List.prefix_iff_eq_take.mp hl
    have hsum := congrArg List.length he
    rw [hlen, List.length_append] at hsum
    have hpos := List.length_pos_iff.mpr h₁
    have hpos' := List.length_pos_iff.mpr h₂
    rw [hstarts]
    exact hfirst _ hpos (by omega)
  obtain ⟨g, hfeeds⟩ := @feeds_ahead pre post (s.take m) (hs ▸ List.take_prefix m s)
  by_cases hroom : m ≤ maxFrameSize - code.length
  case neg =>
    have hnone : findStart (maxFrameSize - code.length) code ⟨pre ++ post, pre.length, false⟩ =
        none := by
      cases hr : findStart (maxFrameSize - code.length) code ⟨pre ++ post, pre.length, false⟩ with
      | none => rfl
      | some r =>
        have hmore := findStart_mono hr m
        rw [hfind g hfeeds _ (by omega)] at hmore
        cases hmore
        have hall := findStart_length hr
        rw [List.length_append, hlen] at hall
        omega
    simp only [readPayload, hnone, ne_eq, not_true_eq_false, false_iff]
    rintro ⟨hwithin, -⟩
    obtain ⟨k, hk, hkle, hkend, -⟩ := first_code hc hwithin
    rw [List.length_take] at hkle
    rw [List.take_take, Nat.min_eq_left (by omega)] at hkend
    exact hfirst k (by omega) (by omega) hkend
  have hwithin : startCode3 <:+: s.take (maxFrameSize - code.length) := by
    refine (three_le hc hne hend).2.isInfix.trans ?_
    exact (List.take_prefix_take_left hroom).isInfix
  have hthree' := (three_le hc hne hend).2
  have htake : ∀ code', (code' = startCode3 ∨ code' = startCode4) → code' <+: s →
      s.take m = code' := by
    intro code' hc' hstarts
    have heq := List.prefix_iff_eq_take.mp hstarts
    have hsuf : startCode3 <:+ code ++ s.take code'.length := by
      rw [← heq]
      rcases hc' with rfl | rfl
      · exact List.suffix_append _ _
      · exact ⟨code ++ [0], by simp [startCode3, startCode4]⟩
    have hle' : m ≤ code'.length := by
      by_contra hlt
      refine hfirst _ ?_ (Nat.lt_of_not_le hlt) hsuf
      rcases hc' with rfl | rfl <;> decide
    have hm : m = code'.length := by
      rcases hc' with rfl | rfl
      · exact le_antisymm hle' hthree
      · by_contra hm
        have h3 : m = 3 := by
          have : m ≤ 4 := hle'
          have : m ≠ 4 := hm
          omega
        have hzeros : s.take 3 = [0, 0, 0] := by
          have := congrArg (List.take 3) heq
          rw [List.take_take] at this
          exact this.symm
        rw [h3, hzeros] at hthree'
        exact absurd (suffix_eq hthree' (by decide)) (by decide)
    rw [hm, ← heq]
  have hn : ∀ code', (code' = startCode3 ∨ code' = startCode4) → s.take m = code' →
      (if startCode4 <:+ code ++ s.take m then 4 else 3) = code'.length := by
    rintro code' hc' htake'
    rw [htake']
    rcases hc' with rfl | rfl
    · rcases hc with rfl | rfl <;> simp [startCode3, startCode4, List.suffix_cons_iff]
    · rw [if_pos (List.suffix_append _ _)]
      rfl
  refine iff_iff_implies_and_implies.mpr ⟨fun h => ⟨hwithin, ?_⟩, ?_⟩
  · have hran : ∀ code', (code' = startCode3 ∨ code' = startCode4) → code' <+: s → False := by
      intro code' hc' hstarts
      obtain ⟨post', rfl⟩ := prefix_post hc' (hs ▸ hstarts)
      have hfeeds' := feeds_inside pre code' post'
      have htake' := htake code' hc' hstarts
      have hm : m = code'.length := by rw [← hlen, htake']
      apply h
      have hfound := hfind ⟨pre ++ (code' ++ post'), pre.length + code'.length, false⟩
        (by rw [htake']; exact hfeeds') _ hroom
      rw [hn code' hc' htake'] at hfound
      simp only [readPayload, hfound, File.back]
      rw [if_pos (by omega)]
      simp only [List.length_append, hlen]
      rw [if_pos (by omega)]
    exact ⟨hran _ (.inl rfl), hran _ (.inr rfl)⟩
  · rintro ⟨-, hno3, hno4⟩ hran
    have hstarts : ∀ code' : List UInt8, code'.length = m → code' <:+ code ++ s.take m →
        code' <+: s := by
      intro code' hm hsuf
      have hsuf' : code' <:+ s.take m :=
        List.suffix_of_suffix_length_le hsuf (List.suffix_append _ _) (by omega)
      rw [suffix_eq hsuf' (by omega)]
      exact List.take_prefix m s
    have hlong : (if startCode4 <:+ code ++ s.take m then 4 else 3) < m := by
      have hm3 : m ≠ 3 := fun hm => hno3 (hstarts _ hm.symm hend)
      split
      · rename_i h4
        have hm4 : m ≠ 4 := fun hm => hno4 (hstarts _ hm.symm h4)
        omega
      · omega
    have hfound := hfind g hfeeds _ hroom
    simp only [readPayload, hfound] at hran
    cases hb : g.back (if startCode4 <:+ code ++ s.take m then 4 else 3) with
    | none =>
      rw [hb] at hran
      cases hran
    | some g' =>
      rw [hb] at hran
      simp only [List.length_append, hlen] at hran
      rw [if_neg (by omega)] at hran
      cases hran

end Payload

theorem readNALU_steps (f : File) :
    readNALU f =
      if (f.fread 3).1.length ≠ 3 then .errEof (f.fread 3).2
      else if (f.fread 3).1 = startCode3 then readPayload (f.fread 3).1 (f.fread 3).2
      else if ((f.fread 3).2.fread 1).1.length ≠ 1 then .errEof ((f.fread 3).2.fread 1).2
      else if (f.fread 3).1 ++ ((f.fread 3).2.fread 1).1 = startCode4 then
        readPayload ((f.fread 3).1 ++ ((f.fread 3).2.fread 1).1) ((f.fread 3).2.fread 1).2
      else .errNotFound ((f.fread 3).2.fread 1).2 := rfl

/-- For every file and every position in it, a call stays inside its arrays exactly if it finds
no start code there, or another one behind it in time and not at once. -/
theorem readNALU_inside (bytes : List UInt8) (pos : ℕ) :
    readNALU ⟨bytes, pos, false⟩ ≠ .ran ↔ Bounded bytes pos := by
  by_cases hcode : ∃ code, (code = startCode3 ∨ code = startCode4) ∧ code <+: bytes.drop pos
  · obtain ⟨code, hc, post, hpost⟩ := hcode
    have hpos : pos ≤ bytes.length := by
      by_contra hlt
      rw [List.drop_eq_nil_of_le (by omega)] at hpost
      rcases hc with rfl | rfl <;> simp [startCode3, startCode4] at hpost
    obtain ⟨pre, hpre, rfl⟩ : ∃ pre : List UInt8, bytes = pre ++ (code ++ post) ∧ pre.length = pos :=
      ⟨bytes.take pos, by rw [hpost, List.take_append_drop], List.length_take_of_le hpos⟩
    subst hpre
    have hdrop : (pre ++ (code ++ post)).drop pre.length = code ++ post := List.drop_left
    have hahead : ahead (pre ++ (code ++ post)) (pre.length + code.length) =
        post ++ 0xff :: (pre ++ (code ++ post)) := by
      rw [ahead, ← List.drop_drop, hdrop, List.drop_left]
    have hpayload := @readPayload_inside (pre ++ code) post code hc ⟨pre, rfl⟩
    rw [List.length_append, List.append_assoc, ← hahead] at hpayload
    rw [readNALU_eq hc, hpayload, Bounded, hdrop]
    constructor
    · intro h code' hc' hstarts
      have hsame : code' = code := by
        rcases hc with rfl | rfl <;> rcases hc' with rfl | rfl <;>
          simp [startCode3, startCode4] at hstarts ⊢
      rw [hsame]
      exact h
    · exact fun h => h code hc (List.prefix_append _ _)
  · refine iff_of_true ?_ fun code hc hstarts => absurd ⟨code, hc, hstarts⟩ hcode
    have hno : ∀ code, (code = startCode3 ∨ code = startCode4) →
        (bytes.drop pos).take code.length ≠ code :=
      fun code hc he => hcode ⟨code, hc, List.prefix_iff_eq_take.mpr he.symm⟩
    have hread : ∀ n (f : File), (f.fread n).1 = (f.bytes.drop f.pos).take n := fun _ _ => rfl
    have hfile : (File.fread 3 ⟨bytes, pos, false⟩).2 =
        ⟨bytes, pos + ((bytes.drop pos).take 3).length, decide (((bytes.drop pos).take 3).length < 3)⟩ := by
      simp [File.fread]
    rw [readNALU_steps, hread]
    split_ifs with h3 h3' h1 h4
    · exact NALURead.noConfusion
    · exact absurd h3' (hno startCode3 (.inl rfl))
    · exact NALURead.noConfusion
    · rw [hread, hfile, not_not.mp h3, ← List.drop_drop, ← List.take_add] at h4
      exact absurd h4 (hno startCode4 (.inr rfl))
    · exact NALURead.noConfusion

end Fenice.H264
