import LinuxBuild.Commands
import LinuxBuild.Numeral

/-!
# Numeric arguments

`parse_unsigned` gives up when a word gets smaller, so some numerals that do not
fit are taken for what is left of them.
-/

namespace LinuxBuild

/-- A non-empty sequence of ASCII digits. -/
def IsNumeral (text : Bytes) : Prop := text ≠ [] ∧ ∀ c ∈ text, isDigit c = true

instance (text : Bytes) : Decidable (IsNumeral text) :=
  inferInstanceAs (Decidable (_ ∧ _))

def decimal (text : Bytes) : Nat := Numeral.value (text.map digit)

theorem digit_lt {c : UInt8} (h : isDigit c = true) : digit c < 10 := by
  simp only [isDigit, Bool.and_eq_true, decide_eq_true_eq, UInt8.le_iff_toNat_le] at h
  have : c.toNat ≤ 57 := h.2
  simp only [digit]
  omega

/-! ## `parse_unsigned` -/

/-- `parse_unsigned` with the object behind `value`: the result, and what it
holds then. -/
def parseUnsignedTo (w : Word) (value : Nat) : Nat → Bytes → Int × Nat
  | parsed, [] => (0, parsed)
  | parsed, c :: text =>
    if !isDigit c then (-1, value)
    else
      let next := (parsed * 10 + digit c) % 2 ^ w.bits
      if next < parsed then (-1, value) else parseUnsignedTo w value next text

def parseUnsignedInto (w : Word) (text : Bytes) (value : Nat) : Int × Nat :=
  if text = [] then (-1, value) else parseUnsignedTo w value 0 text

/-- The result and the object, as an option. -/
theorem parseUnsignedInto_eq (w : Word) (text : Bytes) (value : Nat) :
    parseUnsignedInto w text value =
      match parseUnsigned w text with
      | some parsed => (0, parsed)
      | none => (-1, value) := by
  have hfrom : ∀ parsed, parseUnsignedTo w value parsed text =
      match parseUnsignedFrom w parsed text with
      | some parsed => (0, parsed)
      | none => (-1, value) := by
    induction text with
    | nil => intro parsed; rfl
    | cons c text ih =>
      intro parsed
      simp only [parseUnsignedTo, parseUnsignedFrom]
      by_cases hc : isDigit c = true
      · simp only [hc, Bool.not_true, Bool.false_eq_true, if_false]
        split
        · rfl
        · exact ih _
      · simp only [hc, Bool.not_false, if_true]
  rw [parseUnsignedInto, parseUnsigned]
  split
  · rfl
  · exact hfrom 0

theorem parseUnsignedFrom_eq (w : Word) (parsed : Nat) (text : Bytes) :
    parseUnsignedFrom w parsed text =
      if text.all isDigit then Numeral.accumulate w.bits parsed (text.map digit) else none := by
  induction text generalizing parsed with
  | nil => simp [parseUnsignedFrom, Numeral.accumulate]
  | cons c text ih =>
    simp only [parseUnsignedFrom, List.map_cons, Numeral.accumulate, List.all_cons]
    by_cases hc : isDigit c = true
    · simp only [hc, Bool.not_true, Bool.false_eq_true, if_false, Bool.true_and, ih]
      split <;> split <;> rfl
    · simp only [hc, Bool.not_false, if_true, Bool.false_and, if_false, Bool.false_eq_true]

/-- What `parse_unsigned` accepts, and the value it stores. -/
theorem parseUnsigned_eq_some {w : Word} {text : Bytes} {v : Nat} :
    parseUnsigned w text = some v ↔ IsNumeral text ∧
      Numeral.falls w.bits 0 (text.map digit) = false ∧ decimal text % 2 ^ w.bits = v := by
  rw [parseUnsigned]
  by_cases hnil : text = []
  · simp [hnil, IsNumeral]
  · rw [if_neg hnil, parseUnsignedFrom_eq]
    by_cases hdigits : ∀ c ∈ text, isDigit c = true
    · rw [if_pos (List.all_eq_true.mpr hdigits)]
      have haccumulate : Numeral.accumulate w.bits (0 % 2 ^ w.bits) (text.map digit) = some v ↔
          Numeral.falls w.bits 0 (text.map digit) = false ∧ decimal text % 2 ^ w.bits = v :=
        Numeral.accumulate_eq_some
      rw [Nat.zero_mod] at haccumulate
      rw [haccumulate]
      exact ⟨fun h => ⟨⟨hnil, hdigits⟩, h⟩, fun h => h.2⟩
    · rw [if_neg (mt List.all_eq_true.mp hdigits)]
      exact ⟨nofun, fun h => absurd h.1.2 hdigits⟩

/-- The partial values of a numeral, reduced to the word, never get smaller. -/
def NeverFalls (w : Word) (text : Bytes) : Prop :=
  ∀ u c v, text = u ++ c :: v → decimal u % 2 ^ w.bits ≤ decimal (u ++ [c]) % 2 ^ w.bits

theorem neverFalls_iff {w : Word} {text : Bytes} :
    NeverFalls w text ↔ Numeral.falls w.bits 0 (text.map digit) = false := by
  rw [Numeral.not_falls_iff]
  constructor
  · intro h us d vs hsplit
    obtain ⟨u, v', rfl, rfl, hv'⟩ := List.map_eq_append_iff.mp hsplit
    obtain ⟨c, v, rfl, rfl, rfl⟩ := List.map_eq_cons_iff.mp hv'
    have := h u c v rfl
    simpa only [decimal, Numeral.value, List.map_append, List.map_cons, List.map_nil] using this
  · rintro h u c v rfl
    have := h (u.map digit) (digit c) (v.map digit) (by simp)
    simpa only [decimal, Numeral.value, List.map_append, List.map_cons, List.map_nil] using this

/-- Exactly the numerals below `2 ^ w` are parsed, to their value, and the object
is left alone otherwise, unless the numeral is too large and its partial values
never get smaller in the word. -/
theorem parse_unsigned_exact_iff (w : Word) (text : Bytes) (value : Nat) :
    parseUnsignedInto w text value =
        (if IsNumeral text ∧ decimal text < 2 ^ w.bits then (0, decimal text) else (-1, value)) ↔
      ¬ (IsNumeral text ∧ 2 ^ w.bits ≤ decimal text ∧ NeverFalls w text) := by
  rw [parseUnsignedInto_eq, neverFalls_iff]
  cases hp : parseUnsigned w text with
  | some v =>
    obtain ⟨hnum, hfalls, hv⟩ := parseUnsigned_eq_some.mp hp
    by_cases hlt : decimal text < 2 ^ w.bits
    · rw [if_pos ⟨hnum, hlt⟩, ← hv, Nat.mod_eq_of_lt hlt]
      exact iff_of_true rfl fun h => Nat.not_lt_of_le h.2.1 hlt
    · rw [if_neg fun h => hlt h.2]
      refine iff_of_false (fun h => ?_) (not_not_intro ⟨hnum, Nat.le_of_not_lt hlt, hfalls⟩)
      cases (Prod.mk.inj h).1
  | none =>
    have hnone : ¬ (IsNumeral text ∧ Numeral.falls w.bits 0 (text.map digit) = false) := by
      rintro ⟨hnum, hfalls⟩
      rw [parseUnsigned_eq_some.mpr ⟨hnum, hfalls, rfl⟩] at hp
      cases hp
    rw [if_neg fun h => hnone ⟨h.1, Numeral.not_falls_of_lt h.2⟩]
    exact iff_of_true rfl fun h => hnone ⟨h.1, h.2.2⟩

/-- Five thousand million on RV32. -/
theorem wrapped_numeral_accepted :
    parseUnsignedInto .rv32 (ascii "5000000000") 7 = (0, 705032704) ∧
      decimal (ascii "5000000000") = 5000000000 := by decide +kernel

end LinuxBuild
