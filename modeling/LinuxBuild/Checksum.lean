import LinuxBuild.Net
import LinuxBuild.OnesComplement

/-!
# `internet_checksum`

The words of a buffer are added up in 32 bits, which up to 131074 bytes hold the
whole sum (`wordSum_exact`), and the carries are folded in.
-/

namespace LinuxBuild.Payload

/-- The largest 16-bit word. -/
def allOnes : Nat := 0xffff

/-- The little-endian 16-bit words of a buffer, an odd last byte as a low byte. -/
def words16 : Bytes → List Nat
  | [] => []
  | [last] => [last.toNat]
  | low :: high :: rest => (low.toNat + 256 * high.toNat) :: words16 rest

theorem words16_le (buffer : Bytes) : ∀ w ∈ words16 buffer, w ≤ allOnes := by
  induction buffer using words16.induct with
  | case1 => simp [words16]
  | case2 last =>
    have := last.toNat_lt
    simp only [words16, List.forall_mem_singleton, allOnes]
    omega
  | case3 low high rest ih =>
    have := low.toNat_lt
    have := high.toNat_lt
    simp only [words16, List.forall_mem_cons, allOnes] at ih ⊢
    exact ⟨by omega, ih⟩

theorem words16_append {front : Bytes} (back : Bytes) (h : front.length % 2 = 0) :
    words16 (front ++ back) = words16 front ++ words16 back := by
  induction front using words16.induct with
  | case1 => rfl
  | case2 last => simp at h
  | case3 low high rest ih =>
    simp only [List.cons_append, words16]
    rw [ih (by simp at h; omega)]

/-! ## The sum -/

theorem wordSum_eq (start : Nat) (buffer : Bytes) (h : start < 2 ^ 32) :
    wordSum start buffer = (start + (words16 buffer).sum) % 2 ^ 32 := by
  induction buffer using words16.induct generalizing start with
  | case1 => exact (Nat.mod_eq_of_lt h).symm
  | case2 last => simp [wordSum, words16]
  | case3 low high rest ih =>
    rw [wordSum, ih _ (Nat.mod_lt _ (by decide)), words16, List.sum_cons]
    omega

theorem words16_sum_le (buffer : Bytes) :
    (words16 buffer).sum ≤ allOnes * ((buffer.length + 1) / 2) := by
  induction buffer using words16.induct with
  | case1 => simp [words16]
  | case2 last =>
    have := last.toNat_lt
    simp [words16, allOnes]
    omega
  | case3 low high rest ih =>
    have := low.toNat_lt
    have := high.toNat_lt
    simp only [words16, List.sum_cons, List.length_cons, allOnes] at ih ⊢
    omega

/-- Up to 131074 bytes nothing is carried out of the 32 bits. -/
theorem wordSum_exact {buffer : Bytes} (h : buffer.length ≤ 131074) :
    wordSum 0 buffer = (words16 buffer).sum := by
  have hle := words16_sum_le buffer
  simp only [allOnes] at hle
  rw [wordSum_eq 0 buffer (by decide), Nat.zero_add, Nat.mod_eq_of_lt]
  omega

/-! ## The carries -/

/-- The rounds of the second loop leave the word of the sum. -/
theorem foldCarries_eq {fuel sum : Nat} (h : sum ≤ fuel) :
    foldCarries fuel sum = OnesComplement.reduce allOnes sum := by
  have hlow : ∀ n, n &&& 0xffff = n % (allOnes + 1) := fun n => Nat.and_two_pow_sub_one_eq_mod n 16
  have hhigh : ∀ n, n >>> 16 = n / (allOnes + 1) := fun n => Nat.shiftRight_eq_div_pow n 16
  induction fuel generalizing sum with
  | zero =>
    obtain rfl : sum = 0 := by omega
    rfl
  | succ fuel ih =>
    rw [foldCarries]
    split
    · rename_i hend
      rw [hhigh, allOnes] at hend
      rw [OnesComplement.reduce_of_le (by rw [allOnes]; omega)]
    · rename_i hmore
      rw [hhigh, allOnes] at hmore
      have hbig : allOnes < sum := by rw [allOnes]; omega
      have hless := OnesComplement.fold_lt (by decide) hbig
      rw [hlow, hhigh, ih (by omega), OnesComplement.reduce_fold]

theorem internetChecksum_eq (buffer : Bytes) :
    internetChecksum buffer = allOnes - OnesComplement.reduce allOnes (wordSum 0 buffer) := by
  rw [internetChecksum, foldCarries_eq (Nat.le_refl _)]
  rfl

/-! ## A message with its checksum -/

theorem words16_u16Bytes {value : Nat} (h : value ≤ allOnes) :
    words16 (u16Bytes value) = [value] := by
  rw [allOnes] at h
  simp only [u16Bytes, words16, UInt8.toNat_ofNat', Nat.shiftRight_eq_div_pow, List.cons.injEq,
    and_true]
  omega

/-- The sum of a message grows by the word in its checksum field. -/
theorem wordSum_field {front : Bytes} (field : Nat) (back : Bytes) (hfront : front.length % 2 = 0)
    (hfield : field ≤ allOnes) :
    wordSum 0 (front ++ u16Bytes field ++ back) =
      (wordSum 0 (front ++ u16Bytes 0 ++ back) + field) % 2 ^ 32 := by
  have heven : (front ++ u16Bytes field).length % 2 = 0 := by simp [u16Bytes]; omega
  have heven' : (front ++ u16Bytes 0).length % 2 = 0 := by simp [u16Bytes]; omega
  rw [wordSum_eq 0 _ (by decide), wordSum_eq 0 _ (by decide), words16_append _ heven,
    words16_append _ heven', words16_append _ hfront, words16_append _ hfront,
    words16_u16Bytes hfield, words16_u16Bytes (by decide)]
  simp only [List.sum_append, List.sum_cons, List.sum_nil]
  omega

/-- A message that carries its checksum has the checksum zero. No length bound
is needed: the complement fills the sum up to a multiple of 65535 that the 32
bits still hold. -/
theorem internetChecksum_field {front : Bytes} (back : Bytes) (h : front.length % 2 = 0) :
    internetChecksum
      (front ++ u16Bytes (internetChecksum (front ++ u16Bytes 0 ++ back)) ++ back) = 0 := by
  have hsmall : wordSum 0 (front ++ u16Bytes 0 ++ back) < 2 ^ 32 := by
    rw [wordSum_eq 0 _ (by decide)]
    exact Nat.mod_lt _ (by decide)
  rw [internetChecksum_eq (front ++ u16Bytes 0 ++ back), internetChecksum_eq,
    wordSum_field _ back h (Nat.sub_le _ _)]
  generalize wordSum 0 (front ++ u16Bytes 0 ++ back) = sum at hsmall ⊢
  obtain ⟨k, hk, hfull, hbound⟩ := OnesComplement.add_complement (m := allOnes) (by decide) sum
  have hfits : sum + (allOnes - OnesComplement.reduce allOnes sum) < 2 ^ 32 := by
    rw [hfull]
    simp only [allOnes] at hbound ⊢
    omega
  obtain ⟨j, rfl⟩ : ∃ j, k = j + 1 := ⟨k - 1, by omega⟩
  rw [Nat.mod_eq_of_lt hfits, hfull, Nat.mul_succ, Nat.add_comm,
    OnesComplement.reduce_add_mul allOnes j (by decide), OnesComplement.reduce_of_le (Nat.le_refl _),
    Nat.sub_self]

/-- The request `cmd_ping` sends checks out at its receiver. -/
theorem internetChecksum_echoRequest (sequence : Nat) :
    internetChecksum (echoRequest sequence).bytes = 0 := by
  have hblank : (blankRequest sequence).bytes = [8, 0] ++ u16Bytes 0 ++ (u16Bytes (hostToNetwork16 1) ++
      u16Bytes (hostToNetwork16 (sequence % 2 ^ 16)) ++ (ascii "tiny" ++ List.replicate 12 0)) := rfl
  have hfield := @internetChecksum_field [8, 0] (u16Bytes (hostToNetwork16 1) ++
    u16Bytes (hostToNetwork16 (sequence % 2 ^ 16)) ++ (ascii "tiny" ++ List.replicate 12 0)) rfl
  rw [← hblank] at hfield
  exact hfield

/-- Up to 131074 bytes the checksum is the complement of the one's-complement
sum; its loop over the carries ends; and stored in a zeroed field of a message it
makes the checksum of the message zero, as in the requests of `cmd_ping`. -/
theorem internet_checksum_exact :
    (∀ buffer : Bytes, buffer.length ≤ 131074 →
      internetChecksum buffer = allOnes - OnesComplement.sum allOnes (words16 buffer)) ∧
      (∀ sum fuel, sum ≤ fuel →
        foldCarries fuel sum = foldCarries sum sum ∧ foldCarries fuel sum >>> 16 = 0) ∧
      (∀ front back : Bytes, front.length % 2 = 0 → internetChecksum
        (front ++ u16Bytes (internetChecksum (front ++ [0, 0] ++ back)) ++ back) = 0) ∧
      ∀ sequence, internetChecksum (echoRequest sequence).bytes = 0 := by
  refine ⟨fun buffer h => ?_, fun sum fuel h => ?_, fun front back h => internetChecksum_field back h,
    internetChecksum_echoRequest⟩
  · rw [internetChecksum_eq, wordSum_exact h,
      OnesComplement.sum_eq_reduce (by decide) (words16_le buffer)]
  · rw [foldCarries_eq h, foldCarries_eq (Nat.le_refl sum)]
    have hle : OnesComplement.reduce allOnes sum ≤ 65535 := OnesComplement.reduce_le (by decide) sum
    refine ⟨rfl, ?_⟩
    rw [Nat.shiftRight_eq_div_pow]
    exact Nat.div_eq_of_lt (by omega)

/-- The two zeros and an odd tail. -/
theorem internet_checksum_exact_cases :
    internetChecksum [0xff, 0xff] = 0 ∧ internetChecksum [0, 0] = allOnes ∧
      internetChecksum [1, 0, 2] = allOnes - 3 := by
  obtain ⟨hsum, _, _⟩ := internet_checksum_exact
  exact ⟨hsum _ (by decide), hsum _ (by decide), hsum _ (by decide)⟩

end LinuxBuild.Payload
