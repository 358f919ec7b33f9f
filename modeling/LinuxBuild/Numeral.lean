import Mathlib.Algebra.Group.Nat.Defs

/-!
# Decimal numerals in machine words

A numeral is read digit by digit into a word of `w` bits. The reader gives up
when the word gets smaller, which is not the same as giving up when the exact
value no longer fits: `accumulate_eq_some` says what a successful reading
returns, `not_falls_of_lt` that no numeral below `2 ^ w` is given up.
-/

namespace LinuxBuild.Numeral

/-- The value of the digits `ds` written after a numeral of value `n`. -/
def valueFrom (n : Nat) (ds : List Nat) : Nat :=
  ds.foldl (fun v d => v * 10 + d) n

def value (ds : List Nat) : Nat := valueFrom 0 ds

@[simp] theorem valueFrom_nil (n : Nat) : valueFrom n [] = n := rfl

@[simp] theorem valueFrom_cons (n d : Nat) (ds : List Nat) :
    valueFrom n (d :: ds) = valueFrom (n * 10 + d) ds := rfl

theorem valueFrom_eq (n : Nat) (ds : List Nat) : valueFrom n ds = n * 10 ^ ds.length + value ds := by
  induction ds generalizing n with
  | nil => simp [value]
  | cons d ds ih =>
    simp only [value, valueFrom_cons, List.length_cons, Nat.pow_succ]
    rw [ih (n * 10 + d), ih (0 * 10 + d), Nat.add_mul, Nat.add_mul]
    simp only [Nat.zero_mul, Nat.zero_add, Nat.mul_assoc, Nat.mul_comm (10 ^ ds.length) 10]
    omega

theorem value_cons (d : Nat) (ds : List Nat) : value (d :: ds) = d * 10 ^ ds.length + value ds := by
  rw [value, valueFrom_cons, valueFrom_eq, Nat.zero_mul, Nat.zero_add]

/-- The digits of `n` as it is written, with no leading zero. -/
structure Decimal (n : Nat) (ds : List Nat) : Prop where
  digits : ∀ d ∈ ds, d < 10
  value : value ds = n
  nonempty : ds ≠ []
  leading : ds.head? = some 0 → ds = [0]

theorem value_concat (ds : List Nat) (d : Nat) : value (ds ++ [d]) = value ds * 10 + d := by
  simp [value, valueFrom]

/-- The last digit of a number as it is written, and what stands before it. -/
theorem decimal_concat {n d : Nat} {ds : List Nat} (h : Decimal n (ds ++ [d])) :
    d < 10 ∧ n = value ds * 10 + d ∧ (ds = [] ∨ 0 < value ds ∧ Decimal (value ds) ds) := by
  refine ⟨h.digits d (by simp), by rw [← h.value, value_concat], ?_⟩
  cases ds with
  | nil => exact .inl rfl
  | cons e ds =>
    have he : e ≠ 0 := by
      rintro rfl
      have := h.leading rfl
      simp at this
    right
    refine ⟨?_, fun x hx => h.digits x (List.mem_append_left _ hx), rfl, List.cons_ne_nil _ _, ?_⟩
    · rw [value_cons]
      have hpow : 0 < 10 ^ ds.length := Nat.pow_pos (by decide)
      have := Nat.mul_pos (Nat.pos_of_ne_zero he) hpow
      omega
    · intro h0
      exact absurd (by simpa using h0) he

/-- A number is written in one way. -/
theorem map_digitChar {n : Nat} {ds : List Nat} (h : Decimal n ds) :
    ds.map Nat.digitChar = Nat.toDigits 10 n := by
  induction n using Nat.strongRecOn generalizing ds with
  | ind n ih =>
    obtain rfl | ⟨front, d, rfl⟩ := List.eq_nil_or_concat ds
    · exact absurd rfl h.nonempty
    · rw [List.concat_eq_append] at h ⊢
      obtain ⟨hd, hn, rfl | ⟨hpos, hfront⟩⟩ := decimal_concat h
      · simp only [value, valueFrom_nil] at hn
        rw [Nat.toDigits_of_lt_base (by omega), show n = d by omega]
        rfl
      · rw [List.map_append, Nat.toDigits_of_base_le (by decide) (by omega),
          ih _ (by omega) hfront, show n / 10 = value front by omega, show n % 10 = d by omega]
        rfl

theorem le_valueFrom (n : Nat) (ds : List Nat) : n ≤ valueFrom n ds := by
  induction ds generalizing n with
  | nil => exact Nat.le_refl _
  | cons d ds ih =>
    have := ih (n * 10 + d)
    simp only [valueFrom_cons]
    omega

/-- Read digits into a word, giving up when the new word is below the old. -/
def accumulate (w : Nat) : Nat → List Nat → Option Nat
  | v, [] => some v
  | v, d :: ds =>
    let next := (v * 10 + d) % 2 ^ w
    if next < v then none else accumulate w next ds

/-- Some partial value is smaller, reduced to `w` bits, than the one before. -/
def falls (w : Nat) : Nat → List Nat → Bool
  | _, [] => false
  | n, d :: ds => decide ((n * 10 + d) % 2 ^ w < n % 2 ^ w) || falls w (n * 10 + d) ds

theorem word_step (w n d : Nat) : (n % 2 ^ w * 10 + d) % 2 ^ w = (n * 10 + d) % 2 ^ w := by
  rw [Nat.add_mod, Nat.mul_mod, Nat.mod_mod, ← Nat.mul_mod, ← Nat.add_mod]

theorem accumulate_of_falls {w n : Nat} {ds : List Nat} (h : falls w n ds = true) :
    accumulate w (n % 2 ^ w) ds = none := by
  induction ds generalizing n with
  | nil => simp [falls] at h
  | cons d ds ih =>
    simp only [accumulate, word_step]
    split
    · rfl
    · rename_i hlt
      simp only [falls, Bool.or_eq_true, decide_eq_true_eq] at h
      exact ih (h.resolve_left hlt)

theorem accumulate_of_not_falls {w n : Nat} {ds : List Nat} (h : falls w n ds = false) :
    accumulate w (n % 2 ^ w) ds = some (valueFrom n ds % 2 ^ w) := by
  induction ds generalizing n with
  | nil => rfl
  | cons d ds ih =>
    simp only [falls, Bool.or_eq_false_iff, decide_eq_false_iff_not] at h
    simp only [accumulate, word_step, if_neg h.1, valueFrom_cons]
    exact ih h.2

/-- A reading that is not given up returns the exact value reduced to the word. -/
theorem accumulate_eq_some {w n v : Nat} {ds : List Nat} :
    accumulate w (n % 2 ^ w) ds = some v ↔ falls w n ds = false ∧ valueFrom n ds % 2 ^ w = v := by
  cases h : falls w n ds with
  | true => simp [accumulate_of_falls h]
  | false => simp [accumulate_of_not_falls h]

/-- Numerals that fit the word never fall. -/
theorem not_falls_of_lt {w n : Nat} {ds : List Nat} (h : valueFrom n ds < 2 ^ w) :
    falls w n ds = false := by
  induction ds generalizing n with
  | nil => rfl
  | cons d ds ih =>
    simp only [valueFrom_cons] at h
    have hn := le_valueFrom (n * 10 + d) ds
    simp only [falls, Bool.or_eq_false_iff, decide_eq_false_iff_not]
    constructor
    · rw [Nat.mod_eq_of_lt (by omega), Nat.mod_eq_of_lt (by omega)]
      omega
    · exact ih h

/-- Every partial value is, reduced to `w` bits, at least the one before. -/
theorem not_falls_iff {w n : Nat} {ds : List Nat} : falls w n ds = false ↔
    ∀ us d vs, ds = us ++ d :: vs → valueFrom n us % 2 ^ w ≤ valueFrom n (us ++ [d]) % 2 ^ w := by
  induction ds generalizing n with
  | nil => simp [falls]
  | cons d ds ih =>
    simp only [falls, Bool.or_eq_false_iff, decide_eq_false_iff_not, ih]
    constructor
    · rintro ⟨hd, hds⟩ us d' vs hsplit
      cases us with
      | nil =>
        cases hsplit
        exact Nat.le_of_not_lt hd
      | cons u us =>
        cases hsplit
        exact hds us d' vs rfl
    · intro h
      exact ⟨Nat.not_lt_of_le (h [] d ds rfl),
        fun us d' vs hsplit => h (d :: us) d' vs (by rw [hsplit]; rfl)⟩

theorem mod_le_of_not_falls {w n : Nat} {ds : List Nat} (h : falls w n ds = false) :
    n % 2 ^ w ≤ valueFrom n ds % 2 ^ w := by
  induction ds generalizing n with
  | nil => exact Nat.le_refl _
  | cons d ds ih =>
    simp only [falls, Bool.or_eq_false_iff, decide_eq_false_iff_not] at h
    exact Nat.le_trans (Nat.le_of_not_lt h.1) (ih h.2)

/-- A numeral that wraps around without falling stays above every bound that
one more digit cannot carry out of the word. -/
theorem lt_of_not_falls {w n bound : Nat} {ds : List Nat} (hbound : bound * 10 + 9 < 2 ^ w)
    (hds : ∀ d ∈ ds, d < 10) (hn : n < 2 ^ w) (h : falls w n ds = false)
    (hvalue : valueFrom n ds % 2 ^ w ≤ bound) : valueFrom n ds < 2 ^ w := by
  induction ds generalizing n with
  | nil => exact hn
  | cons d ds ih =>
    have hle := mod_le_of_not_falls h
    rw [Nat.mod_eq_of_lt hn] at hle
    have hd := hds d List.mem_cons_self
    have hnext : n * 10 + d < 2 ^ w := by omega
    simp only [falls, Bool.or_eq_false_iff] at h
    exact ih (fun d hd => hds d (List.mem_cons_of_mem _ hd)) hnext h.2 hvalue

end LinuxBuild.Numeral
