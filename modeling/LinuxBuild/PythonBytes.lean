import LinuxBuild.Bytes
import LinuxBuild.Utf8

/-!
# Python byte strings

Slices with any bounds, `int(text, 16)`, `struct.unpack_from`, and the strict
`bytes.decode()`.
-/

namespace LinuxBuild.Python

/-! ## Slices -/

/-- Where a bound of a slice falls; a negative one counts from the end. -/
def sliceBound (length : Nat) (i : Int) : Nat :=
  if i < 0 then (i + length).toNat else min i.toNat length

/-- `data[a:b]`. -/
def slice {α : Type} (data : List α) (a b : Int) : List α :=
  (data.take (sliceBound data.length b)).drop (sliceBound data.length a)

theorem sliceBound_natCast {length i : Nat} (h : i ≤ length) : sliceBound length i = i := by
  rw [sliceBound, if_neg (by omega)]
  omega

/-- A piece of the data, by where it stands. -/
theorem slice_at {α : Type} (front piece back : List α) {a b : Int} (ha : a = front.length)
    (hb : b = front.length + piece.length) : slice (front ++ (piece ++ back)) a b = piece := by
  have hb' : b = ((front.length + piece.length : Nat) : Int) := by omega
  rw [slice, ha, hb', sliceBound_natCast (by simp), sliceBound_natCast (by simp),
    List.take_append, List.take_of_length_le (by omega)]
  simp

/-! ## Integers -/

/-- What `int` takes off both ends of a byte string. -/
def isBlank (c : UInt8) : Bool := c = 0x20 || (0x09 ≤ c && c ≤ 0x0d)

def hexDigit (c : UInt8) : Option Nat :=
  if '0'.toUInt8 ≤ c ∧ c ≤ '9'.toUInt8 then some (c.toNat - 48)
  else if 'a'.toUInt8 ≤ c ∧ c ≤ 'f'.toUInt8 then some (c.toNat - 87)
  else if 'A'.toUInt8 ≤ c ∧ c ≤ 'F'.toUInt8 then some (c.toNat - 55)
  else none

/-- The digits from here on and what stands behind them. One underscore may
stand between two digits; `between` says that the last byte was one. -/
def hexDigits (value : Nat) (between : Bool) : Bytes → Option (Nat × Bytes)
  | [] => if between then none else some (value, [])
  | c :: rest =>
    if c = '_'.toUInt8 then if between then none else hexDigits value true rest
    else
      match hexDigit c with
      | some d => hexDigits (16 * value + d) false rest
      | none => if between then none else some (value, c :: rest)

/-- The sign, and the text behind it. -/
def signOf : Bytes → Bool × Bytes
  | [] => (false, [])
  | c :: rest =>
    if c = '+'.toUInt8 then (false, rest)
    else if c = '-'.toUInt8 then (true, rest)
    else (false, c :: rest)

/-- The text behind `0x`, or `0x_`. -/
def dropBase : Bytes → Bytes
  | zero :: x :: rest =>
    if zero = '0'.toUInt8 ∧ (x = 'x'.toUInt8 ∨ x = 'X'.toUInt8) then
      if rest.head? = some '_'.toUInt8 then rest.drop 1 else rest
    else zero :: x :: rest
  | text => text

/-- `int(text, 16)` of a byte string. -/
def int16 (text : Bytes) : Option Int :=
  let (negative, unsigned) := signOf (text.dropWhile isBlank)
  let digits := dropBase unsigned
  if (digits.head?.bind hexDigit).isNone then none
  else
    match hexDigits 0 false digits with
    | none => none
    | some (value, rest) =>
      if rest.all isBlank then some (if negative then -value else value) else none

theorem signOf_unsigned {text : Bytes} (h : '-'.toUInt8 ∉ text) : (signOf text).1 = false := by
  cases text with
  | nil => rfl
  | cons c rest =>
    have hc : c ≠ '-'.toUInt8 := fun heq => h (heq ▸ List.mem_cons_self)
    rw [signOf, if_neg hc]
    split <;> rfl

/-- Without a minus sign the number is not negative. -/
theorem int16_nonneg {text : Bytes} {value : Int} (h : '-'.toUInt8 ∉ text)
    (hvalue : int16 text = some value) : 0 ≤ value := by
  have hunsigned : (signOf (text.dropWhile isBlank)).1 = false :=
    signOf_unsigned fun hmem => h ((List.dropWhile_suffix isBlank).subset hmem)
  simp only [int16, hunsigned] at hvalue
  split at hvalue
  · cases hvalue
  split at hvalue
  · cases hvalue
  split at hvalue
  · cases hvalue
    exact Int.natCast_nonneg _
  · cases hvalue

/-! ## Eight digits -/

def hexValue (text : Bytes) : Nat := text.foldl (fun v c => 16 * v + (hexDigit c).getD 0) 0

/-- The value as eight digits in any case. -/
def IsHex8 (text : Bytes) (value : Nat) : Prop :=
  text.length = 8 ∧ (∀ c ∈ text, (hexDigit c).isSome = true) ∧ hexValue text = value

instance (text : Bytes) (value : Nat) : Decidable (IsHex8 text value) :=
  inferInstanceAs (Decidable (_ ∧ _))

/-- A digit is none of the bytes that `int` also looks for. -/
theorem hexDigit_plain {c : UInt8} (h : (hexDigit c).isSome = true) :
    isBlank c = false ∧ c ≠ '+'.toUInt8 ∧ c ≠ '-'.toUInt8 ∧ c ≠ '_'.toUInt8 ∧ c ≠ 'x'.toUInt8 ∧
      c ≠ 'X'.toUInt8 := by
  have hbytes : ∀ n < 256, (hexDigit (UInt8.ofNat n)).isSome = true →
      isBlank (UInt8.ofNat n) = false ∧ UInt8.ofNat n ≠ '+'.toUInt8 ∧ UInt8.ofNat n ≠ '-'.toUInt8 ∧
        UInt8.ofNat n ≠ '_'.toUInt8 ∧ UInt8.ofNat n ≠ 'x'.toUInt8 ∧ UInt8.ofNat n ≠ 'X'.toUInt8 := by
    decide +kernel
  have := hbytes c.toNat c.toNat_lt
  rw [UInt8.ofNat_toNat] at this
  exact this h

theorem hexDigits_eq {text : Bytes} (value : Nat) (h : ∀ c ∈ text, (hexDigit c).isSome = true) :
    hexDigits value false text =
      some (text.foldl (fun v c => 16 * v + (hexDigit c).getD 0) value, []) := by
  induction text generalizing value with
  | nil => rfl
  | cons c text ih =>
    simp only [List.forall_mem_cons] at h
    obtain ⟨d, hd⟩ := Option.isSome_iff_exists.mp h.1
    have hc := (hexDigit_plain h.1).2.2.2.1
    simp only [hexDigits, hc, if_false, hd, ih _ h.2, List.foldl_cons, Option.getD_some]

theorem int16_hex8 {text : Bytes} {value : Nat} (h : IsHex8 text value) :
    int16 text = some value := by
  obtain ⟨hlen, hdigits, rfl⟩ := h
  obtain ⟨a, b, rest, rfl⟩ : ∃ a b rest, text = a :: b :: rest := by
    match text, hlen with
    | a :: b :: rest, _ => exact ⟨a, b, rest, rfl⟩
  have ha := hdigits a List.mem_cons_self
  have hb := hdigits b (List.mem_cons_of_mem _ List.mem_cons_self)
  obtain ⟨hblank, hplus, hminus, _⟩ := hexDigit_plain ha
  obtain ⟨_, _, _, _, hx, hX⟩ := hexDigit_plain hb
  have hdrop : (a :: b :: rest).dropWhile isBlank = a :: b :: rest := by
    rw [List.dropWhile_cons, if_neg (by simp [hblank])]
  have hsign : signOf (a :: b :: rest) = (false, a :: b :: rest) := by
    rw [signOf, if_neg hplus, if_neg hminus]
  have hbase : dropBase (a :: b :: rest) = a :: b :: rest := by
    rw [dropBase, if_neg]
    rintro ⟨_, h | h⟩
    · exact hx h
    · exact hX h
  have hfirst : ((a :: b :: rest).head?.bind hexDigit).isNone = false := by
    obtain ⟨d, hd⟩ := Option.isSome_iff_exists.mp ha
    simp [hd]
  rw [int16, hdrop, hsign]
  simp only [hbase, hfirst, hexDigits_eq 0 hdigits]
  simp [hexValue]

/-! ## Numbers in memory -/

/-- `struct.unpack_from('<H', body, offset)`. -/
def unpack16 (body : Bytes) (offset : Nat) : Option Nat := do
  let low ← body[offset]?
  let high ← body[offset + 1]?
  return low.toNat + 256 * high.toNat

/-- `struct.unpack_from('<I', body, offset)`. -/
def unpack32 (body : Bytes) (offset : Nat) : Option Nat := do
  let low ← unpack16 body offset
  let high ← unpack16 body (offset + 2)
  return low + 65536 * high

end LinuxBuild.Python
