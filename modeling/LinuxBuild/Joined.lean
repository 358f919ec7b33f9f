/-!
# Texts joined by a separator

Two texts joined by a separator are not told apart when the separator also
stands in one of them. A separator that does not overlap itself leaves no other
way (`joined_eq_iff`).
-/

namespace LinuxBuild.Joined

variable {α : Type}

/-- The separator does not end as it begins. -/
def Unbordered (sep : List α) : Prop :=
  ∀ front border back, sep = front ++ border → sep = border ++ back → border = [] ∨ front = []

/-- The second pair is the first with the separator moved on into `b`. -/
def Shifted (sep a b c d : List α) : Prop := ∃ w, c = a ++ sep ++ w ∧ b = w ++ sep ++ d

theorem unbordered_singleton (x : α) : Unbordered [x] := by
  intro front border back hfront _
  cases front with
  | nil => exact .inr rfl
  | cons y front =>
    have h := List.append_eq_nil_iff.mp (List.cons.inj hfront).2.symm
    exact .inl h.2

theorem unbordered_pair {x y : α} (h : x ≠ y) : Unbordered [x, y] := by
  intro front border back hfront hback
  match border, hback with
  | [], _ => exact .inl rfl
  | z :: border, hback =>
    obtain ⟨rfl, hback⟩ := List.cons.inj hback
    match front, hfront with
    | [], _ => exact .inr rfl
    | [u], hfront => exact absurd (List.cons.inj (List.cons.inj hfront).2).1.symm h
    | u :: v :: front, hfront =>
      have hnil := (List.cons.inj (List.cons.inj hfront).2).2
      simp at hnil

theorem Shifted.joined_eq {sep a b c d : List α} (h : Shifted sep a b c d) :
    a ++ sep ++ b = c ++ sep ++ d := by
  obtain ⟨w, rfl, rfl⟩ := h
  simp

/-- The same text cut at two places, the second not before the first. -/
theorem shifted_of_joined_eq {sep a b c d t : List α} (hsep : Unbordered sep) (hc : c = a ++ t)
    (h : sep ++ b = t ++ sep ++ d) : a = c ∧ b = d ∨ Shifted sep a b c d := by
  rw [List.append_assoc, List.append_eq_append_iff] at h
  obtain ⟨w, rfl, hb⟩ | ⟨border, hfront, hback⟩ := h
  · exact .inr ⟨w, by rw [hc, List.append_assoc], by rw [hb, List.append_assoc]⟩
  · -- the two separators overlap in `border`
    rw [List.append_eq_append_iff] at hback
    obtain ⟨back, hborder, hd⟩ | ⟨back, hsplit, hb⟩ := hback
    · have hlength := congrArg List.length hfront
      simp only [hborder, List.length_append] at hlength
      obtain rfl : t = [] := List.length_eq_zero_iff.mp (by omega)
      obtain rfl : back = [] := List.length_eq_zero_iff.mp (by omega)
      exact .inl ⟨by rw [hc, List.append_nil], hd.symm⟩
    · rcases hsep t border back hfront hsplit with rfl | rfl
      · rw [List.append_nil] at hfront
        rw [List.nil_append] at hsplit
        subst hfront hsplit
        exact .inr ⟨[], by rw [hc, List.append_nil], hb⟩
      · rw [List.nil_append] at hfront
        subst hfront
        obtain rfl : back = [] := List.append_right_eq_self.mp hsplit.symm
        exact .inl ⟨by rw [hc, List.append_nil], hb⟩

theorem joined_eq_iff {sep a b c d : List α} (hsep : Unbordered sep) :
    a ++ sep ++ b = c ++ sep ++ d ↔
      a = c ∧ b = d ∨ Shifted sep a b c d ∨ Shifted sep c d a b := by
  constructor
  · intro h
    rw [List.append_assoc, List.append_assoc, List.append_eq_append_iff] at h
    obtain ⟨t, hc, ht⟩ | ⟨t, ha, ht⟩ := h
    · obtain hsame | hshift := shifted_of_joined_eq hsep hc (by rw [ht, List.append_assoc])
      · exact .inl hsame
      · exact .inr (.inl hshift)
    · obtain ⟨hca, hdb⟩ | hshift := shifted_of_joined_eq hsep ha (by rw [ht, List.append_assoc])
      · exact .inl ⟨hca.symm, hdb.symm⟩
      · exact .inr (.inr hshift)
  · rintro (⟨rfl, rfl⟩ | h | h)
    · rfl
    · exact h.joined_eq
    · exact h.joined_eq.symm

end LinuxBuild.Joined
