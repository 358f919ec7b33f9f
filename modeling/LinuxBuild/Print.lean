import LinuxBuild.Numeral
import LinuxBuild.Util

/-!
# What `print_u64` prints

After `n` rounds the twenty digits are those of the top `n` bits
(`u64Digits_spec`): a round doubles the number and adds a bit, and no number of
64 bits carries out of the first digit.
-/

namespace LinuxBuild

theorem doubleDigits_spec (carry : Nat) {ds : List Nat} (hc : carry ≤ 1) (hd : ∀ d ∈ ds, d < 10) :
    (doubleDigits carry ds).1 ≤ 1 ∧ (∀ d ∈ (doubleDigits carry ds).2, d < 10) ∧
    (doubleDigits carry ds).2.length = ds.length ∧
    (doubleDigits carry ds).1 * 10 ^ ds.length + Numeral.value (doubleDigits carry ds).2 =
      2 * Numeral.value ds + carry := by
  induction ds with
  | nil => simp [doubleDigits, Numeral.value, hc]
  | cons d ds ih =>
    obtain ⟨hcarry, hdigits, hlen, hvalue⟩ := ih fun e he => hd e (List.mem_cons_of_mem _ he)
    have hlt := hd d List.mem_cons_self
    simp only [doubleDigits]
    revert hcarry hdigits hlen hvalue
    generalize doubleDigits carry ds = r
    obtain ⟨c, es⟩ := r
    intro hcarry hdigits hlen hvalue
    simp only at hcarry hdigits hlen hvalue ⊢
    split
    · refine ⟨Nat.le_refl 1, ?_, by simp [hlen], ?_⟩
      · simp only [List.mem_cons, forall_eq_or_imp]
        exact ⟨by omega, hdigits⟩
      · have : 10 ≤ d * 2 + c := by assumption
        obtain ⟨e, he⟩ : ∃ e, d * 2 + c = 10 + e := ⟨d * 2 + c - 10, by omega⟩
        have : d * 2 * 10 ^ ds.length + c * 10 ^ ds.length = 10 * 10 ^ ds.length + e * 10 ^ ds.length := by
          rw [← Nat.add_mul, ← Nat.add_mul, he]
        rw [he, Nat.add_sub_cancel_left, Numeral.value_cons, Numeral.value_cons, hlen,
          List.length_cons, Nat.pow_succ, Nat.mul_add]
        rw [Nat.mul_right_comm] at this
        omega
    · refine ⟨Nat.zero_le 1, ?_, by simp [hlen], ?_⟩
      · simp only [List.mem_cons, forall_eq_or_imp]
        exact ⟨by omega, hdigits⟩
      · rw [Numeral.value_cons, Numeral.value_cons, hlen, Nat.add_mul, Nat.mul_add,
          Nat.mul_right_comm]
        omega

theorem u64Digits_spec {value n : Nat} (hv : value < 2 ^ 64) (hn : n ≤ 64) :
    (u64Digits value n).length = 20 ∧ (∀ d ∈ u64Digits value n, d < 10) ∧
    Numeral.value (u64Digits value n) = value >>> (64 - n) := by
  induction n with
  | zero =>
    refine ⟨rfl, by simp [u64Digits], ?_⟩
    rw [Nat.shiftRight_eq_div_pow, Nat.div_eq_of_lt hv]
    rfl
  | succ n ih =>
    obtain ⟨hlen, hdigits, hvalue⟩ := ih (by omega)
    have hbit : value >>> (63 - n) &&& 1 = value >>> (63 - n) % 2 := Nat.and_one_is_mod _
    obtain ⟨_, hdigits', hlen', hvalue'⟩ := doubleDigits_spec
      (value >>> (63 - n) &&& 1) (by omega) hdigits
    have hhalf : value >>> (64 - n) = value >>> (63 - n) / 2 := by
      rw [show 64 - n = (63 - n) + 1 by omega, Nat.shiftRight_succ]
    have hbound : value >>> (63 - n) ≤ value := by
      rw [Nat.shiftRight_eq_div_pow]; exact Nat.div_le_self _ _
    refine ⟨hlen'.trans hlen, hdigits', ?_⟩
    rw [show 64 - (n + 1) = 63 - n by omega]
    rw [hvalue, hhalf, hbit, hlen] at hvalue'
    simp only [u64Digits, hbit]
    omega

theorem skipZeros_spec {ds : List Nat} (h : ds ≠ []) :
    Numeral.value (skipZeros ds) = Numeral.value ds ∧ (∀ d ∈ skipZeros ds, d ∈ ds) ∧
    skipZeros ds ≠ [] ∧ ((skipZeros ds).head? = some 0 → skipZeros ds = [0]) := by
  induction ds with
  | nil => exact absurd rfl h
  | cons d ds ih =>
    cases ds with
    | nil => simp [skipZeros]
    | cons e ds =>
      simp only [skipZeros]
      split
      · rename_i hd
        obtain ⟨hvalue, hmem, hne, hlead⟩ := ih (List.cons_ne_nil _ _)
        refine ⟨?_, fun x hx => List.mem_cons_of_mem _ (hmem x hx), hne, hlead⟩
        rw [hvalue, Numeral.value_cons d, hd, Nat.zero_mul, Nat.zero_add]
      · rename_i hd
        exact ⟨rfl, fun x hx => hx, List.cons_ne_nil _ _, fun hz => absurd (by simpa using hz) hd⟩

/-- A number of 64 bits is printed in decimal. -/
theorem u64Text_decimal {value : Nat} (h : value < 2 ^ 64) :
    ∃ ds, Numeral.Decimal value ds ∧ u64Text value = ds.map fun d => UInt8.ofNat (48 + d) := by
  obtain ⟨hlen, hdigits, hvalue⟩ := u64Digits_spec h (Nat.le_refl 64)
  have hne : u64Digits value 64 ≠ [] := by
    intro he
    rw [he] at hlen
    cases hlen
  obtain ⟨hskip, hmem, hsome, hlead⟩ := skipZeros_spec hne
  refine ⟨skipZeros (u64Digits value 64), ?_, rfl⟩
  exact { digits := fun d hd => hdigits d (hmem d hd), value := hskip.trans hvalue,
          nonempty := hsome, leading := hlead }

end LinuxBuild
