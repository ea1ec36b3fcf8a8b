import Fenice.Lib.CText

/-!
# When `strstr` and `strchr` find something

What a search finds is the end of the string from there on; it finds nothing iff what it
looks for does not occur.
-/

namespace Fenice.CString

theorem strstr_suffix {s word t : Bytes} (h : strstr s word = some t) : t <:+ s := by
  induction s with
  | nil =>
    unfold strstr at h
    split at h
    · cases h
      exact List.suffix_rfl
    · cases h
  | cons c s ih =>
    unfold strstr at h
    split at h
    · cases h
      exact List.suffix_rfl
    · exact (ih h).trans (List.suffix_cons c s)

theorem strchr_suffix {s t : Bytes} {c : UInt8} (h : strchr s c = some t) : t <:+ s := by
  induction s with
  | nil => cases h
  | cons d s ih =>
    unfold strchr at h
    split at h
    · cases h
      exact List.suffix_rfl
    · exact (ih h).trans (List.suffix_cons d s)

theorem strstr_isSome {s word : Bytes} : (strstr s word).isSome = true ↔ word <:+: s := by
  induction s with
  | nil =>
    rw [List.infix_nil]
    unfold strstr
    cases word <;> simp
  | cons c s ih =>
    rw [List.infix_cons_iff, List.prefix_iff_eq_take]
    unfold strstr
    split
    · rename_i h
      exact ⟨fun _ => .inl h.symm, fun _ => rfl⟩
    · rename_i h
      rw [ih]
      exact ⟨.inr, fun hw => hw.resolve_left fun he => h he.symm⟩

theorem strchr_isSome {s : Bytes} {c : UInt8} : (strchr s c).isSome = true ↔ c ∈ s := by
  induction s with
  | nil => simp [strchr]
  | cons d s ih =>
    rw [List.mem_cons]
    unfold strchr
    split
    · rename_i h
      exact ⟨fun _ => .inl h.symm, fun _ => rfl⟩
    · rename_i h
      rw [ih]
      exact ⟨.inr, fun hc => hc.resolve_left fun he => h he.symm⟩

theorem strchr_count {s t : Bytes} {c : UInt8} (h : strchr s c = some t) :
    (t.drop 1).count c + 1 = s.count c := by
  induction s with
  | nil => cases h
  | cons d s ih =>
    unfold strchr at h
    split at h
    · rename_i hd
      cases h
      rw [hd, List.count_cons_self]
      rfl
    · rename_i hd
      rw [ih h, List.count_cons_of_ne hd]

theorem lt_count_iff {s : Bytes} {c : UInt8} {n : ℕ} :
    n + 1 ≤ s.count c ↔ ∃ q, strchr s c = some q ∧ n ≤ (q.drop 1).count c := by
  constructor
  · intro h
    have hmem : c ∈ s := List.count_pos_iff.mp (by omega)
    obtain ⟨q, hq⟩ := Option.isSome_iff_exists.mp (strchr_isSome.mpr hmem)
    have := strchr_count hq
    exact ⟨q, hq, by omega⟩
  · rintro ⟨q, hq, hn⟩
    have := strchr_count hq
    omega

end Fenice.CString
