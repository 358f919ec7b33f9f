/-!
# Byte strings

Texts as the C code and the network see them: lists of bytes, with a NUL after
the last one where the code reads a C string.
-/

namespace LinuxBuild

abbrev Bytes := List UInt8

/-- A string literal of the source. -/
def ascii (s : String) : Bytes := s.toList.map Char.toUInt8

def cr : UInt8 := '\r'.toUInt8
def lf : UInt8 := '\n'.toUInt8

def isDigit (c : UInt8) : Bool := '0'.toUInt8 ≤ c && c ≤ '9'.toUInt8

def digit (c : UInt8) : Nat := c.toNat - 48

namespace Bytes

/-- A text is a single piece, or its first piece, a separator and a rest. -/
theorem split_cases {α : Type} [DecidableEq α] (x : α) (b : List α) :
    (x ∉ b ∧ b.splitOn x = [b]) ∨
      ∃ l rest, b = l ++ x :: rest ∧ x ∉ l ∧ b.splitOn x = l :: rest.splitOn x := by
  by_cases h : x ∈ b
  · right
    obtain ⟨l, rest, rfl, hl⟩ := List.eq_append_cons_of_mem h
    exact ⟨l, rest, rfl, hl, List.splitOn_append_cons_self_of_not_mem hl rest⟩
  · exact .inl ⟨h, List.splitOn_eq_singleton h⟩

/-- Induction on the separated pieces of a text. -/
theorem split_induction {α : Type} [DecidableEq α] (x : α) {motive : List α → Prop}
    (last : ∀ b, x ∉ b → motive b)
    (piece : ∀ l rest, x ∉ l → motive rest → motive (l ++ x :: rest)) (b : List α) : motive b := by
  generalize hn : b.length = n
  induction n using Nat.strongRecOn generalizing b with
  | ind n ih =>
    obtain ⟨h, _⟩ | ⟨l, rest, rfl, hl, _⟩ := split_cases x b
    · exact last b h
    · refine piece l rest hl (ih rest.length ?_ rest rfl)
      simp only [List.length_append, List.length_cons] at hn
      omega

/-- A piece holds no separator, and only elements of the text. -/
theorem mem_splitOnP {α : Type} {p : α → Bool} {text piece : List α} {c : α}
    (h : piece ∈ text.splitOnP p) (hc : c ∈ piece) : p c = false ∧ c ∈ text := by
  induction text generalizing piece with
  | nil => simp_all
  | cons d text ih =>
    rw [List.splitOnP_cons_eq_if_modifyHead] at h
    split at h
    · rcases List.mem_cons.mp h with rfl | h
      · simp at hc
      · exact ⟨(ih h hc).1, List.mem_cons_of_mem _ (ih h hc).2⟩
    · rename_i hd
      obtain ⟨first, pieces, heq⟩ := List.exists_cons_of_ne_nil (List.splitOnP_ne_nil p text)
      rw [heq] at h ih
      simp only [List.modifyHead_cons, List.mem_cons] at h
      rcases h with rfl | h
      · rcases List.mem_cons.mp hc with rfl | hc
        · exact ⟨by simpa using hd, List.mem_cons_self⟩
        · have := ih List.mem_cons_self hc
          exact ⟨this.1, List.mem_cons_of_mem _ this.2⟩
      · have := ih (List.mem_cons_of_mem _ h) hc
        exact ⟨this.1, List.mem_cons_of_mem _ this.2⟩

end Bytes

end LinuxBuild
