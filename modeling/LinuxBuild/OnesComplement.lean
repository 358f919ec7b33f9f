import Mathlib.Algebra.GroupWithZero.Nat

/-!
# One's-complement sums

Numbers up to `m`, all ones, with `0` and `m` as the two zeros. A carry out of a
word comes back in at its low end, which keeps the number modulo `m`; `reduce`
is the word that is left when nothing is carried any more.
-/

namespace LinuxBuild.OnesComplement

/-- Addition with end-around carry. -/
def add (m a b : Nat) : Nat := if a + b ≤ m then a + b else a + b - m

def sum (m : Nat) (words : List Nat) : Nat := words.foldl (add m) 0

/-- The word of a number: zero for zero alone, all ones for its multiples of `m`. -/
def reduce (m n : Nat) : Nat := if n = 0 then 0 else (n - 1) % m + 1

theorem reduce_of_le {m n : Nat} (h : n ≤ m) : reduce m n = n := by
  unfold reduce
  split
  · omega
  · rw [Nat.mod_eq_of_lt (by omega)]
    omega

theorem reduce_le {m : Nat} (hm : 0 < m) (n : Nat) : reduce m n ≤ m := by
  unfold reduce
  split
  · omega
  · have := Nat.mod_lt (n - 1) hm
    omega

/-- A positive number keeps its word when a multiple of `m` is added. -/
theorem reduce_add_mul {n : Nat} (m k : Nat) (h : 0 < n) : reduce m (n + m * k) = reduce m n := by
  unfold reduce
  rw [if_neg (by omega), if_neg (by omega), show n + m * k - 1 = n - 1 + m * k by omega,
    Nat.add_mul_mod_self_left]

/-- What a number has above its word is a multiple of `m`. -/
theorem eq_reduce_add (m n : Nat) : ∃ k, n = reduce m n + m * k := by
  unfold reduce
  split
  · exact ⟨0, by omega⟩
  · refine ⟨(n - 1) / m, ?_⟩
    have := Nat.mod_add_div (n - 1) m
    omega

theorem reduce_pos {m n : Nat} (h : 0 < n) : 0 < reduce m n := by
  unfold reduce
  rw [if_neg (by omega)]
  omega

theorem reduce_reduce_add (m a b : Nat) : reduce m (reduce m a + b) = reduce m (a + b) := by
  obtain ⟨k, hk⟩ := eq_reduce_add m a
  by_cases hpos : 0 < reduce m a + b
  · rw [← reduce_add_mul m k hpos]
    congr 1
    omega
  · have ha : ¬ 0 < a := fun h => hpos (by have := reduce_pos (m := m) h; omega)
    rw [show a = 0 by omega, show b = 0 by omega]
    rfl

theorem add_eq_reduce {m a b : Nat} (ha : a ≤ m) (hb : b ≤ m) : add m a b = reduce m (a + b) := by
  unfold add
  split
  · rw [reduce_of_le (by assumption)]
  · have h := reduce_add_mul (n := a + b - m) m 1 (by omega)
    rw [Nat.mul_one, Nat.sub_add_cancel (by omega)] at h
    rw [h, reduce_of_le (by omega)]

/-- Adding up words is adding up numbers. -/
theorem sum_eq_reduce {m : Nat} (hm : 0 < m) {words : List Nat} (h : ∀ w ∈ words, w ≤ m) :
    sum m words = reduce m words.sum := by
  have hfold : ∀ start, start ≤ m → words.foldl (add m) start = reduce m (start + words.sum) := by
    induction words with
    | nil =>
      intro start hstart
      rw [List.foldl_nil, List.sum_nil, Nat.add_zero, reduce_of_le hstart]
    | cons w words ih =>
      intro start hstart
      simp only [List.forall_mem_cons] at h
      rw [List.foldl_cons, ih h.2 _ (by rw [add_eq_reduce hstart h.1]; exact reduce_le hm _),
        add_eq_reduce hstart h.1, reduce_reduce_add, List.sum_cons, Nat.add_assoc]
  rw [sum, hfold 0 (Nat.zero_le m), Nat.zero_add]

/-- Folding the part above a word back in keeps the word and gets smaller. -/
theorem reduce_fold (m n : Nat) : reduce m (n % (m + 1) + n / (m + 1)) = reduce m n := by
  have hn := Nat.mod_add_div n (m + 1)
  rw [Nat.add_mul, Nat.one_mul] at hn
  generalize n / (m + 1) = q at hn ⊢
  generalize n % (m + 1) = r at hn ⊢
  by_cases hpos : 0 < r + q
  · rw [← reduce_add_mul m q hpos]
    congr 1
    omega
  · obtain rfl : q = 0 := by omega
    rw [← hn, Nat.mul_zero, Nat.zero_add]

theorem fold_lt {m n : Nat} (hm : 0 < m) (h : m < n) : n % (m + 1) + n / (m + 1) < n := by
  have hn := Nat.mod_add_div n (m + 1)
  have hdiv : 0 < n / (m + 1) := Nat.div_pos h (by omega)
  have := Nat.mul_le_mul_right (n / (m + 1)) (show 2 ≤ m + 1 by omega)
  omega

/-- The complement of a word fills its number up to the next multiple of `m`. -/
theorem add_complement {m : Nat} (hm : 0 < m) (n : Nat) :
    ∃ k, 0 < k ∧ n + (m - reduce m n) = m * k ∧ (k = 1 ∨ m * (k - 1) < n) := by
  obtain ⟨k, hk⟩ := eq_reduce_add m n
  have hle := reduce_le hm n
  refine ⟨k + 1, Nat.succ_pos k, by rw [Nat.mul_succ]; omega, ?_⟩
  by_cases hn : n = 0
  · left
    have : m * k = 0 := by omega
    have hk0 : k = 0 := (Nat.mul_eq_zero.mp this).resolve_left (by omega)
    omega
  · right
    have := reduce_pos (m := m) (n := n) (by omega)
    rw [Nat.add_sub_cancel]
    omega

end LinuxBuild.OnesComplement
