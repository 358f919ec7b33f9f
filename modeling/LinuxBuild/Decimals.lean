import LinuxBuild.Arguments
import LinuxBuild.Buffer
import LinuxBuild.Print
import LinuxBuild.Writes

/-!
# Numbers printed and parsed

`print_u64` and `print_unsigned` write the same decimal text, one byte a call,
and `parse_unsigned` reads it back.
-/

namespace LinuxBuild

open Buffer

/-- A number as it is written in decimal. -/
def decimalText (value : Nat) : Bytes := ascii (Nat.repr value)

theorem decimalText_eq {value : Nat} {ds : List Nat} (h : Numeral.Decimal value ds) :
    decimalText value = ds.map fun d => UInt8.ofNat (48 + d) := by
  have hdigit : ∀ d, d < 10 → (Nat.digitChar d).toUInt8 = UInt8.ofNat (48 + d) := by decide
  rw [decimalText, ascii, Nat.toList_repr, ← Numeral.map_digitChar h, List.map_map]
  exact List.map_congr_left fun d hd => hdigit d (h.digits d hd)

/-! ## `print_u64` -/

theorem u64Text_eq {value : Nat} (h : value < 2 ^ 64) : u64Text value = decimalText value := by
  obtain ⟨ds, hds, htext⟩ := u64Text_decimal h
  rw [htext, decimalText_eq hds]

/-- No round carries out of the first of the twenty digits. -/
theorem u64_carry_zero {value n : Nat} (hv : value < 2 ^ 64) (hn : n < 64) :
    (doubleDigits (value >>> (63 - n) &&& 1) (u64Digits value n)).1 = 0 := by
  obtain ⟨hlen, hdigits, hvalue⟩ := u64Digits_spec hv (Nat.le_of_lt hn)
  have hbit : value >>> (63 - n) &&& 1 ≤ 1 := Nat.and_le_right
  obtain ⟨_, _, _, hsum⟩ := doubleDigits_spec (value >>> (63 - n) &&& 1) hbit hdigits
  have hle : value >>> (64 - n) ≤ value := by
    rw [Nat.shiftRight_eq_div_pow]
    exact Nat.div_le_self _ _
  rw [hlen, hvalue] at hsum
  omega

/-! ## `print_unsigned` -/

/-- The size of `digits[3 * sizeof(unsigned long) + 1]`. -/
def digitCapacity (w : Word) : Nat := 3 * (w.bits / 8) + 1

/-- The `do` loop of `print_unsigned`, which stores the last digit first. -/
def storeDigits : Nat → Bytes → Nat → Nat → Option (Bytes × Nat)
  | 0, _, _, _ => none
  | fuel + 1, digits, count, value => do
    let digits ← store digits count (UInt8.ofNat (48 + value % 10))
    if value / 10 ≠ 0 then storeDigits fuel digits (count + 1) (value / 10)
    else return (digits, count + 1)

/-- The second loop: the bytes it writes. -/
def loadDigits (digits : Bytes) : Nat → Option Bytes
  | 0 => some []
  | count + 1 => do
    let c ← load digits count
    return c :: (← loadDigits digits count)

/-- `print_unsigned` with its buffer: the bytes it writes. -/
def printUnsignedIn (digits : Bytes) (value : Nat) : Option Bytes := do
  let (digits, count) ← storeDigits (value + 1) digits 0 value
  loadDigits digits count

theorem loadDigits_eq {digits : Bytes} {count : Nat} (h : count ≤ digits.length) :
    loadDigits digits count = some (digits.take count).reverse := by
  induction count with
  | zero => simp [loadDigits]
  | succ count ih =>
    rw [loadDigits, load, List.getElem?_eq_getElem (by omega), ih (by omega),
      List.take_succ_eq_append_getElem (by omega), List.reverse_append]
    rfl

/-- The digits as `print_unsigned` stores them, the last one first. -/
def storedDigits (fuel value : Nat) : Bytes :=
  (Payload.unsignedDigits fuel value).map fun d => UInt8.ofNat (48 + d)

theorem storeDigits_eq {fuel value : Nat} (front : Bytes) {free : Bytes} (hfuel : value < fuel)
    (hfree : (storedDigits fuel value).length ≤ free.length) :
    storeDigits fuel (front ++ free) front.length value =
      some (front ++ storedDigits fuel value ++ free.drop (storedDigits fuel value).length,
        front.length + (storedDigits fuel value).length) := by
  induction fuel generalizing value front free with
  | zero => omega
  | succ fuel ih =>
    simp only [storedDigits, Payload.unsignedDigits, List.map_cons, List.length_cons] at hfree ih ⊢
    obtain ⟨c, free, rfl⟩ := List.exists_cons_of_length_pos (l := free) (by omega)
    rw [storeDigits, store_at front c _ free rfl]
    by_cases hlast : value / 10 = 0
    · simp [hlast]
    · rw [if_neg hlast, List.length_cons] at hfree
      have := @ih (value / 10) (front ++ [UInt8.ofNat (48 + value % 10)]) free (by omega) (by omega)
      simp only [List.append_assoc, List.singleton_append, List.length_append, List.length_cons,
        List.length_nil, Nat.zero_add] at this
      simp only [bind, Option.bind_some, ne_eq, hlast, not_false_eq_true, if_true, if_false, this,
        List.drop_succ_cons, List.append_assoc, List.cons_append]
      rw [Nat.add_assoc, Nat.add_comm 1]

/-- The stored digits are those of the number. -/
theorem decimal_unsignedDigits {fuel value : Nat} (h : value < fuel) :
    Numeral.Decimal value (Payload.unsignedDigits fuel value).reverse := by
  induction fuel generalizing value with
  | zero => omega
  | succ fuel ih =>
    rw [Payload.unsignedDigits, List.reverse_cons]
    by_cases hlast : value / 10 = 0
    · rw [if_pos hlast, List.reverse_nil, List.nil_append]
      have : value < 10 := by omega
      exact { digits := by simp; omega, value := by simp [Numeral.value]; omega,
              nonempty := List.cons_ne_nil _ _, leading := by simp }
    · rw [if_neg hlast]
      have hrest := @ih (value / 10) (by omega)
      generalize (Payload.unsignedDigits fuel (value / 10)).reverse = front at hrest ⊢
      refine { digits := ?_, value := ?_, nonempty := by simp, leading := ?_ }
      · simp only [List.mem_append, List.mem_singleton, or_imp, forall_and, forall_eq]
        exact ⟨hrest.digits, by omega⟩
      · rw [Numeral.value_concat, hrest.value]
        omega
      · obtain ⟨e, front, rfl⟩ := List.exists_cons_of_ne_nil hrest.nonempty
        intro hzero
        have hvalue := hrest.value
        rw [hrest.leading hzero] at hvalue
        exact absurd hvalue.symm hlast

theorem storedDigits_reverse (value : Nat) :
    (storedDigits (value + 1) value).reverse = decimalText value := by
  rw [decimalText_eq (decimal_unsignedDigits (Nat.lt_succ_self value)), storedDigits,
    List.map_reverse]

theorem storedDigits_length {fuel value n : Nat} (h : value < 10 ^ (n + 1)) :
    (storedDigits fuel value).length ≤ n + 1 := by
  induction fuel generalizing value n with
  | zero => simp [storedDigits, Payload.unsignedDigits]
  | succ fuel ih =>
    simp only [storedDigits, Payload.unsignedDigits, List.map_cons, List.length_cons] at ih ⊢
    by_cases hlast : value / 10 = 0
    · simp [hlast]
    · rw [if_neg hlast]
      obtain ⟨n, rfl⟩ : ∃ m, n = m + 1 := by
        cases n with
        | zero => omega
        | succ n => exact ⟨n, rfl⟩
      have := @ih (value / 10) n (by rw [Nat.pow_succ] at h; omega)
      omega

/-- `print_unsigned` stays inside its buffer and writes the number. -/
theorem printUnsignedIn_eq {w : Word} {value : Nat} {digits : Bytes} (h : value < 2 ^ w.bits)
    (hdigits : digits.length = digitCapacity w) :
    printUnsignedIn digits value = some (decimalText value) := by
  have hlen : (storedDigits (value + 1) value).length ≤ digitCapacity w := by
    cases w with
    | rv32 => exact storedDigits_length (n := 12) (Nat.lt_trans h (by decide))
    | rv64 => exact storedDigits_length (n := 24) (Nat.lt_trans h (by decide))
  have hstore := storeDigits_eq [] (Nat.lt_succ_self value) (hdigits ▸ hlen)
  rw [List.nil_append, List.nil_append, List.length_nil, Nat.zero_add] at hstore
  simp only [printUnsignedIn, hstore, bind, Option.bind_some]
  rw [loadDigits_eq (by simp), List.take_left', storedDigits_reverse]
  rfl

/-! ## What is written -/

namespace Payload

open Interaction

/-- A text written byte by byte to the console. -/
def bytewise (text : Bytes) : List Call := text.map fun c => .write 1 [c]

/-- The program writes the text byte by byte and does nothing else, whatever the
kernel answers. -/
def Prints (p : Sys Unit) (text : Bytes) : Prop :=
  ∀ t, Runs p t () ↔ t.map (·.1) = bytewise text

theorem Prints.ret : Prints (.ret ()) [] := by
  intro t
  rw [runs_ret]
  simp [bytewise]

theorem Prints.bind {p q : Sys Unit} {front back : Bytes} (hp : Prints p front)
    (hq : Prints q back) : Prints (.bind p fun _ => q) (front ++ back) := by
  intro t
  rw [runs_bind, bytewise, List.map_append, List.map_eq_append_iff]
  constructor
  · rintro ⟨u, v, _, rfl, hu, hv⟩
    exact ⟨u, v, rfl, (hp u).mp hu, (hq v).mp hv⟩
  · rintro ⟨u, v, rfl, hu, hv⟩
    exact ⟨u, v, (), rfl, (hp u).mpr hu, (hq v).mpr hv⟩

theorem prints_write (c : UInt8) :
    Prints (.bind (sysWrite 1 [c]) fun _ => .ret ()) [c] := by
  intro t
  rw [runs_bind]
  constructor
  · rintro ⟨u, v, _, rfl, hwrite, hret⟩
    obtain ⟨r, rfl, _⟩ := runs_sysWrite.mp hwrite
    obtain ⟨rfl, _⟩ := runs_ret.mp hret
    rfl
  · intro ht
    obtain ⟨⟨c', r⟩, rfl, hcall⟩ := List.map_eq_singleton_iff.mp ht
    cases hcall
    exact ⟨_, [], r.value, rfl, runs_sysWrite.mpr ⟨r, rfl, rfl⟩, .ret⟩

theorem prints_digits (digits : List Nat) :
    Prints (printDigits digits) (digits.map fun d => UInt8.ofNat (48 + d)) := by
  induction digits with
  | nil => exact .ret
  | cons d digits ih => exact (prints_write (UInt8.ofNat (48 + d))).bind ih

theorem prints_printU64 {value : Nat} (h : value < 2 ^ 64) :
    Prints (printU64 value) (decimalText value) := by
  rw [← u64Text_eq h]
  exact prints_digits _

theorem prints_printUnsigned (value : Nat) : Prints (printUnsigned value) (decimalText value) := by
  rw [decimalText_eq (decimal_unsignedDigits (Nat.lt_succ_self value))]
  exact prints_digits _

end Payload

/-! ## What is read back -/

theorem digit_ofNat : ∀ d, d < 10 → isDigit (UInt8.ofNat (48 + d)) = true ∧
    digit (UInt8.ofNat (48 + d)) = d := by
  decide

/-- A decimal text is a numeral of its number. -/
theorem isNumeral_decimalText (value : Nat) :
    IsNumeral (decimalText value) ∧ decimal (decimalText value) = value ∧
      Numeral.Decimal value ((decimalText value).map digit) := by
  have hds := decimal_unsignedDigits (Nat.lt_succ_self value)
  rw [decimalText_eq hds]
  generalize (Payload.unsignedDigits (value + 1) value).reverse = ds at hds
  have hback : (ds.map fun d => UInt8.ofNat (48 + d)).map digit = ds := by
    rw [List.map_map]
    conv => rhs; rw [← List.map_id ds]
    exact List.map_congr_left fun d hd => (digit_ofNat d (hds.digits d hd)).2
  refine ⟨⟨?_, ?_⟩, ?_, ?_⟩
  · simpa using hds.nonempty
  · intro c hc
    obtain ⟨d, hd, rfl⟩ := List.mem_map.mp hc
    exact (digit_ofNat d (hds.digits d hd)).1
  · rw [decimal, hback, hds.value]
  · rw [hback]
    exact hds

/-- The text of a number that fits the word is parsed to that number. -/
theorem parseUnsigned_decimalText {w : Word} {value : Nat} (h : value < 2 ^ w.bits) :
    parseUnsigned w (decimalText value) = some value := by
  obtain ⟨hnumeral, hvalue, hdecimal⟩ := isNumeral_decimalText value
  rw [parseUnsigned_eq_some, hvalue]
  refine ⟨hnumeral, Numeral.not_falls_of_lt ?_, Nat.mod_eq_of_lt h⟩
  have hds : Numeral.valueFrom 0 ((decimalText value).map digit) = value := hdecimal.value
  rw [hds]
  exact h

/-- Both printers write the canonical decimal text and lose no digit, and the
parser of the same word reads it back. -/
theorem decimal_output_round_trip (w : Word) {value : Nat} (h : value < 2 ^ 64) :
    Payload.Prints (Payload.printU64 value) (decimalText value) ∧
      (∀ n < 64, (doubleDigits (value >>> (63 - n) &&& 1) (u64Digits value n)).1 = 0) ∧
      (value < 2 ^ w.bits →
        Payload.Prints (Payload.printUnsigned value) (decimalText value) ∧
        (∀ digits : Bytes, digits.length = digitCapacity w →
          printUnsignedIn digits value = some (decimalText value)) ∧
        ∀ old, parseUnsignedInto w (decimalText value) old = (0, value)) := by
  refine ⟨Payload.prints_printU64 h, fun n hn => u64_carry_zero h hn, fun hw => ⟨
    Payload.prints_printUnsigned value, fun digits hdigits => printUnsignedIn_eq hw hdigits,
    fun old => ?_⟩⟩
  rw [parseUnsignedInto_eq, parseUnsigned_decimalText hw]

theorem decimal_output_round_trip_ninety :
    printUnsignedIn (List.replicate (digitCapacity .rv32) 0) 90 = some (ascii "90") ∧
      parseUnsignedInto .rv32 (ascii "90") 7 = (0, 90) := by
  obtain ⟨_, hparse⟩ := (decimal_output_round_trip .rv32 (by decide : 90 < 2 ^ 64)).2.2 (by decide)
  exact ⟨hparse.1 _ (List.length_replicate ..), hparse.2 7⟩

end LinuxBuild
