import LinuxBuild.Utf8

/-!
# `bytes.decode()`

The strict decoder raises where the other one replaces. Only an ASCII byte
decodes to an ASCII character, which is what looking for ASCII text in a decoded
name rests on.
-/

namespace LinuxBuild.Utf8

def decodeStrictFrom : Option Pending → Bytes → Option Text
  | s, [] => if s.isSome then none else some []
  | none, b :: rest =>
    match lead b.toNat with
    | .char c => (decodeStrictFrom none rest).map (c :: ·)
    | .pending p => decodeStrictFrom (some p) rest
    | .invalid => none
  | some p, b :: rest =>
    if p.low ≤ b.toNat ∧ b.toNat ≤ p.high then
      let bits := p.bits * 64 + (b.toNat - 0x80)
      match p.more with
      | 0 => (decodeStrictFrom none rest).map (Char.ofNat bits :: ·)
      | more + 1 => decodeStrictFrom (some ⟨bits, 0x80, 0xbf, more⟩) rest
    else none

def decodeStrict (bytes : Bytes) : Option Text := decodeStrictFrom none bytes

@[simp] theorem decodeStrict_nil : decodeStrict [] = some [] := rfl

theorem decodeStrict_cons {b : UInt8} (rest : Bytes) (h : b.toNat < 0x80) :
    decodeStrict (b :: rest) = (decodeStrict rest).map (Char.ofNat b.toNat :: ·) := by
  simp only [decodeStrict, decodeStrictFrom, lead, if_pos h]

/-! ## What an unfinished character can become -/

/-- How many characters `more` bytes distinguish. -/
def choices : Nat → Nat
  | 0 => 1
  | more + 1 => 64 * choices more

/-- Everything the character can become lies beyond ASCII and is a character. -/
structure Pending.Sound (p : Pending) : Prop where
  continuation : 0x80 ≤ p.low
  least : 0x80 ≤ (p.bits * 64 + (p.low - 0x80)) * choices p.more
  most : (p.bits * 64 + (p.high - 0x80) + 1) * choices p.more ≤ 0xd800 ∨
    0xe000 ≤ (p.bits * 64 + (p.low - 0x80)) * choices p.more ∧
      (p.bits * 64 + (p.high - 0x80) + 1) * choices p.more ≤ 0x110000

theorem lead_char {b : Nat} {c : Char} (h : lead b = .char c) : b < 0x80 ∧ c = Char.ofNat b := by
  unfold lead at h
  split at h
  · cases h
    exact ⟨by assumption, rfl⟩
  split at h
  · cases h
  split at h
  · cases h
  split at h
  · cases h
  split at h
  · cases h
  · cases h

theorem bound_cases (p : Prop) [Decidable p] (x y : Nat) :
    p ∧ (if p then x else y) = x ∨ ¬ p ∧ (if p then x else y) = y := by
  split
  · exact .inl ⟨by assumption, rfl⟩
  · exact .inr ⟨by assumption, rfl⟩

theorem lead_sound {b : Nat} {p : Pending} (h : lead b = .pending p) : p.Sound := by
  unfold lead at h
  split at h
  · cases h
  split at h
  · cases h
  split at h
  · obtain rfl := Lead.pending.inj h
    refine ⟨Nat.le_refl _, ?_, ?_⟩ <;> dsimp only [choices] <;> omega
  split at h
  · obtain rfl := Lead.pending.inj h
    have hlow := bound_cases (b = 0xe0) 0xa0 0x80
    have hhigh := bound_cases (b = 0xed) 0x9f 0xbf
    refine ⟨?_, ?_, ?_⟩ <;> dsimp only [choices] <;> omega
  split at h
  · obtain rfl := Lead.pending.inj h
    have hlow := bound_cases (b = 0xf0) 0x90 0x80
    have hhigh := bound_cases (b = 0xf4) 0x8f 0xbf
    refine ⟨?_, ?_, ?_⟩ <;> dsimp only [choices] <;> omega
  · cases h

/-- The next byte narrows it down. -/
theorem Pending.Sound.next {p : Pending} {b more : Nat} (h : p.Sound) (hmore : p.more = more + 1)
    (hlow : p.low ≤ b) (hhigh : b ≤ p.high) :
    Pending.Sound ⟨p.bits * 64 + (b - 0x80), 0x80, 0xbf, more⟩ := by
  obtain ⟨hcont, hleast, hmost⟩ := h
  rw [hmore] at hleast hmost
  have hlo : (p.bits * 64 + (p.low - 0x80)) * choices (more + 1) ≤
      (p.bits * 64 + (b - 0x80)) * choices (more + 1) := Nat.mul_le_mul_right _ (by omega)
  have hhi : (p.bits * 64 + (b - 0x80) + 1) * choices (more + 1) ≤
      (p.bits * 64 + (p.high - 0x80) + 1) * choices (more + 1) := Nat.mul_le_mul_right _ (by omega)
  have hleft : ((p.bits * 64 + (b - 0x80)) * 64 + (0x80 - 0x80)) * choices more =
      (p.bits * 64 + (b - 0x80)) * choices (more + 1) := by
    rw [Nat.sub_self, Nat.add_zero, Nat.mul_assoc, choices]
  have hright : ((p.bits * 64 + (b - 0x80)) * 64 + (0xbf - 0x80) + 1) * choices more =
      (p.bits * 64 + (b - 0x80) + 1) * choices (more + 1) := by
    have hbits : (p.bits * 64 + (b - 0x80)) * 64 + (0xbf - 0x80) + 1 =
        (p.bits * 64 + (b - 0x80) + 1) * 64 := by omega
    rw [hbits, Nat.mul_assoc, choices]
  refine ⟨Nat.le_refl _, ?_, ?_⟩
  · simp only [hleft]
    omega
  · simp only [hleft, hright]
    omega

theorem toNat_ofNat {n : Nat} (h : n < 0xd800 ∨ 0xe000 ≤ n ∧ n < 0x110000) :
    (Char.ofNat n).toNat = n := by
  have hvalid : n.isValidChar := by
    obtain h | ⟨h, h'⟩ := h
    · exact .inl h
    · exact .inr ⟨by omega, h'⟩
  rw [Char.ofNat, dif_pos hvalid]
  rfl

theorem Pending.Sound.char {p : Pending} {b : Nat} (h : p.Sound) (hmore : p.more = 0)
    (hlow : p.low ≤ b) (hhigh : b ≤ p.high) :
    0x80 ≤ (Char.ofNat (p.bits * 64 + (b - 0x80))).toNat := by
  obtain ⟨hcont, hleast, hmost⟩ := h
  rw [hmore] at hleast hmost
  simp only [choices, Nat.mul_one] at hleast hmost
  rw [toNat_ofNat (by omega)]
  omega

/-- A character that takes several bytes is not ASCII. -/
theorem decodeStrictFrom_pending {p : Pending} {bytes : Bytes} {t : Text} (hp : p.Sound)
    (h : decodeStrictFrom (some p) bytes = some t) : ∃ c rest, t = c :: rest ∧ 0x80 ≤ c.toNat := by
  induction bytes generalizing p with
  | nil => cases h
  | cons b bytes ih =>
    rw [decodeStrictFrom] at h
    split at h
    · rename_i hin
      cases hmore : p.more with
      | zero =>
        rw [hmore] at h
        obtain ⟨rest, _, rfl⟩ := Option.map_eq_some_iff.mp h
        exact ⟨_, rest, rfl, hp.char hmore hin.1 hin.2⟩
      | succ more =>
        rw [hmore] at h
        exact ih (hp.next hmore hin.1 hin.2) h
    · cases h

/-! ## ASCII characters -/

theorem decodeStrict_eq_nil {bytes : Bytes} (h : decodeStrict bytes = some []) : bytes = [] := by
  cases bytes with
  | nil => rfl
  | cons b bytes =>
    rw [decodeStrict, decodeStrictFrom] at h
    split at h
    · obtain ⟨_, _, hnil⟩ := Option.map_eq_some_iff.mp h
      cases hnil
    · rename_i p hlead
      obtain ⟨_, _, hnil, _⟩ := decodeStrictFrom_pending (lead_sound hlead) h
      cases hnil
    · cases h

/-- An ASCII character in front comes from its byte in front. -/
theorem decodeStrict_eq_cons {bytes : Bytes} {c : Char} {t : Text}
    (h : decodeStrict bytes = some (c :: t)) (hc : c.toNat < 0x80) :
    ∃ rest, bytes = UInt8.ofNat c.toNat :: rest ∧ decodeStrict rest = some t := by
  cases bytes with
  | nil => cases h
  | cons b bytes =>
    rw [decodeStrict, decodeStrictFrom] at h
    split at h
    · rename_i x hlead
      obtain ⟨rest, hrest, heq⟩ := Option.map_eq_some_iff.mp h
      cases heq
      refine ⟨bytes, ?_, hrest⟩
      obtain ⟨hb, rfl⟩ := lead_char hlead
      rw [toNat_ofNat (by omega), UInt8.ofNat_toNat]
    · rename_i p hlead
      obtain ⟨_, _, heq, hge⟩ := decodeStrictFrom_pending (lead_sound hlead) h
      cases heq
      omega
    · cases h

end LinuxBuild.Utf8
