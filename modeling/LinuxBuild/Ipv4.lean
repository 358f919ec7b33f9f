import LinuxBuild.Decimals

/-!
# Dotted addresses

`parse_ipv4` accepts four numerals up to 255 with dots between them and nothing
else, and `print_ipv4` writes the canonical text of an address.
-/

namespace LinuxBuild

open Buffer

def dot : UInt8 := '.'.toUInt8

/-- A numeral, with any number of leading zeros, that fits a byte. -/
def IsGroup (group : Bytes) : Prop := IsNumeral group ∧ decimal group ≤ 255

instance (group : Bytes) : Decidable (IsGroup group) := inferInstanceAs (Decidable (_ ∧ _))

def dotted (a b c d : Bytes) : Bytes := a ++ dot :: (b ++ dot :: (c ++ dot :: d))

/-- The address whose lowest byte is the first group. -/
def addressOf (a b c d : Nat) : Nat := a + 2 ^ 8 * b + 2 ^ 16 * c + 2 ^ 24 * d

/-- The text `print_ipv4` writes. -/
def ipv4Text (address : Nat) : Bytes :=
  dotted (decimalText (address &&& 0xff)) (decimalText (address >>> 8 &&& 0xff))
    (decimalText (address >>> 16 &&& 0xff)) (decimalText (address >>> 24 &&& 0xff))

/-! ## On cells -/

/-- An `unsigned int`, unless the exact value does not fit. -/
def fits32 (value : Nat) : Option Nat := if value < 2 ^ 32 then some value else none

/-- An octet that has been stored. -/
def loadOctet (octets : List (Option Nat)) (i : Nat) : Option Nat := (load octets i).join

/-- The address of the four octets. -/
def joinOctets (octets : List (Option Nat)) : Option Nat := do
  return (← loadOctet octets 0) ||| (← fits32 ((← loadOctet octets 1) <<< 8)) |||
    (← fits32 ((← loadOctet octets 2) <<< 16)) ||| (← fits32 ((← loadOctet octets 3) <<< 24))

/-- `parse_ipv4` with `octets[4]`. An overflow, an access outside of the array or
a read of an octet never stored is `none`; a rejected text is `some none`. -/
def parseIpv4In (octets : List (Option Nat)) (octet value : Nat) (hasDigit : Bool) :
    Bytes → Option (Option Nat)
  | [] =>
    if !hasDigit || octet ≠ 3 then some none
    else do
      let octets ← store octets 3 (some value)
      return some (← joinOctets octets)
  | c :: text =>
    if isDigit c then do
      let next ← fits32 ((← fits32 (value * 10)) + digit c)
      if next > 255 then some none else parseIpv4In octets octet next true text
    else if c = '.'.toUInt8 && hasDigit && octet < 3 then do
      parseIpv4In (← store octets octet (some value)) (octet + 1) 0 false text
    else some none

theorem fits32_of_lt {value : Nat} (h : value < 2 ^ 32) : fits32 value = some value := if_pos h

theorem joinOctets_eq {a b c d : Nat} (hb : b ≤ 255) (hc : c ≤ 255) (hd : d ≤ 255) :
    joinOctets [some a, some b, some c, some d] =
      some (a ||| b <<< 8 ||| c <<< 16 ||| d <<< 24) := by
  have hshift : ∀ n k, n ≤ 255 → k ≤ 24 → fits32 (n <<< k) = some (n <<< k) := by
    intro n k hn hk
    apply fits32_of_lt
    rw [Nat.shiftLeft_eq]
    calc n * 2 ^ k ≤ 255 * 2 ^ 24 := Nat.mul_le_mul hn (Nat.pow_le_pow_right (by decide) hk)
      _ < 2 ^ 32 := by decide
  simp [joinOctets, loadOctet, load, hshift b 8 hb (by decide), hshift c 16 hc (by decide),
    hshift d 24 hd (by decide)]

/-- Nothing overflows, and the array is used within its bounds. -/
theorem parseIpv4In_eq {done : List Nat} {free : List (Option Nat)} {value : Nat} {hasDigit : Bool}
    (text : Bytes) (hdone : ∀ n ∈ done, n ≤ 255) (hcells : done.length + free.length = 4)
    (hlen : done.length ≤ 3) (hvalue : value ≤ 255) :
    parseIpv4In (done.map some ++ free) done.length value hasDigit text =
      some (parseIpv4From done value hasDigit text) := by
  induction text generalizing done free value hasDigit with
  | nil =>
    simp only [parseIpv4In, parseIpv4From]
    by_cases hend : hasDigit = true ∧ done.length = 3
    · obtain ⟨rfl, hthree⟩ := hend
      match done, hthree with
      | [a, b, c], _ =>
        obtain ⟨last, rfl⟩ := List.length_eq_one_iff.mp (by simp at hcells; omega : free.length = 1)
        have := joinOctets_eq (a := a) (hdone b (by simp)) (hdone c (by simp)) hvalue
        simp [store, this]
    · simp only [not_and] at hend
      cases hasDigit with
      | false => simp
      | true => simp [hend rfl]
  | cons c text ih =>
    simp only [parseIpv4In, parseIpv4From]
    by_cases hc : isDigit c = true
    · have hdigit := digit_lt hc
      rw [if_pos hc, if_pos hc, fits32_of_lt (by omega : value * 10 < 2 ^ 32)]
      simp only [bind, Option.bind_some, fits32_of_lt (by omega : value * 10 + digit c < 2 ^ 32)]
      split
      · rfl
      · exact ih hdone hcells hlen (by omega)
    · rw [if_neg hc, if_neg hc]
      by_cases hstop : (c = '.'.toUInt8 && hasDigit && done.length < 3) = true
      · have hthree : done.length < 3 := by simp at hstop; omega
        obtain ⟨slot, free, rfl⟩ := List.exists_cons_of_length_pos (l := free) (by omega)
        have hmore : ∀ n ∈ done ++ [value], n ≤ 255 := by
          simp only [List.mem_append, List.mem_singleton, or_imp, forall_and, forall_eq]
          exact ⟨hdone, hvalue⟩
        have := @ih (done ++ [value]) free 0 false hmore
          (by simp at hcells ⊢; omega) (by simp; omega) (by omega)
        rw [if_pos hstop, if_pos hstop, store_at _ _ _ _ (by simp)]
        simpa using this
      · rw [if_neg hstop, if_neg hstop]

/-! ## The grammar -/

theorem isDigit_dot : isDigit dot = false := by decide

theorem parseIpv4From_digits {octets : List Nat} {value : Nat} {hasDigit : Bool} (rest : Bytes)
    {ds : Bytes} (hds : ∀ c ∈ ds, isDigit c = true) (hvalue : value ≤ 255) :
    parseIpv4From octets value hasDigit (ds ++ rest) =
      if Numeral.valueFrom value (ds.map digit) ≤ 255 then
        parseIpv4From octets (Numeral.valueFrom value (ds.map digit)) (hasDigit || !ds.isEmpty) rest
      else none := by
  induction ds generalizing value hasDigit with
  | nil => simp [hvalue]
  | cons c ds ih =>
    simp only [List.forall_mem_cons] at hds
    simp only [List.cons_append, parseIpv4From, hds.1, if_true, List.map_cons, Numeral.valueFrom_cons]
    split
    · rename_i hbig
      have := Numeral.le_valueFrom (value * 10 + digit c) (ds.map digit)
      rw [if_neg (by omega)]
    · rw [ih hds.2 (by omega)]
      simp

/-- A group with another character in it is rejected. -/
theorem parseIpv4From_other {octets : List Nat} {value : Nat} {hasDigit : Bool} (rest : Bytes)
    {group : Bytes} (hdot : dot ∉ group) (hother : ¬ ∀ c ∈ group, isDigit c = true) :
    parseIpv4From octets value hasDigit (group ++ rest) = none := by
  induction group generalizing value hasDigit with
  | nil => simp at hother
  | cons c group ih =>
    simp only [List.mem_cons, not_or] at hdot
    rw [List.cons_append, parseIpv4From]
    by_cases hc : isDigit c = true
    · simp only [hc, if_true]
      split
      · rfl
      · exact ih hdot.2 fun hall => hother (by simpa [hc] using hall)
    · have hne : c ≠ '.'.toUInt8 := Ne.symm hdot.1
      rw [if_neg hc, if_neg (by simp [hne])]

/-- A group up to its dot is stored as an octet. -/
theorem parseIpv4From_group (octets : List Nat) (rest : Bytes) {group : Bytes} (hdot : dot ∉ group) :
    parseIpv4From octets 0 false (group ++ dot :: rest) =
      if IsGroup group ∧ octets.length < 3 then
        parseIpv4From (octets ++ [decimal group]) 0 false rest
      else none := by
  by_cases hall : ∀ c ∈ group, isDigit c = true
  · have hvalue : Numeral.valueFrom 0 (group.map digit) = decimal group := rfl
    have hgroup : IsGroup group ↔ group ≠ [] ∧ decimal group ≤ 255 :=
      ⟨fun h => ⟨h.1.1, h.2⟩, fun h => ⟨⟨h.1, hall⟩, h.2⟩⟩
    rw [parseIpv4From_digits _ hall (by omega), hvalue, parseIpv4From, isDigit_dot]
    by_cases hnil : group = []
    · have hno : ¬ (IsGroup group ∧ octets.length < 3) := fun h => h.1.1.1 hnil
      rw [if_neg hno]
      simp [hnil]
    · by_cases hle : decimal group ≤ 255
      · by_cases hroom : octets.length < 3 <;> simp [hgroup, hnil, hle, hroom, dot]
      · simp [hgroup, hle]
  · rw [parseIpv4From_other _ hdot hall, if_neg fun h => hall h.1.1.2]

/-- The last group completes the address. -/
theorem parseIpv4From_last (octets : List Nat) {group : Bytes} (hdot : dot ∉ group) :
    parseIpv4From octets 0 false group =
      if IsGroup group ∧ octets.length = 3 then
        some (octets.getD 0 0 ||| octets.getD 1 0 <<< 8 ||| octets.getD 2 0 <<< 16 |||
          decimal group <<< 24)
      else none := by
  rw [← List.append_nil group]
  by_cases hall : ∀ c ∈ group, isDigit c = true
  · have hvalue : Numeral.valueFrom 0 (group.map digit) = decimal group := rfl
    have hgroup : IsGroup group ↔ group ≠ [] ∧ decimal group ≤ 255 :=
      ⟨fun h => ⟨h.1.1, h.2⟩, fun h => ⟨⟨h.1, hall⟩, h.2⟩⟩
    rw [parseIpv4From_digits _ hall (by omega), hvalue, parseIpv4From, List.append_nil]
    by_cases hnil : group = []
    · have hno : ¬ (IsGroup group ∧ octets.length = 3) := fun h => h.1.1.1 hnil
      rw [if_neg hno]
      simp [hnil]
    · by_cases hle : decimal group ≤ 255
      · by_cases hroom : octets.length = 3 <;> simp [hgroup, hnil, hle, hroom]
      · simp [hgroup, hle]
  · rw [parseIpv4From_other _ hdot hall, List.append_nil, if_neg fun h => hall h.1.1.2]

theorem IsGroup.no_dot {group : Bytes} (h : IsGroup group) : dot ∉ group := by
  intro hdot
  have := h.1.2 dot hdot
  rw [isDigit_dot] at this
  cases this

/-- What is accepted with less than three octets starts with another group. -/
theorem parseIpv4From_some {octets : List Nat} {text : Bytes} {address : Nat}
    (hlen : octets.length < 3) (h : parseIpv4From octets 0 false text = some address) :
    ∃ group rest, text = group ++ dot :: rest ∧ IsGroup group ∧
      parseIpv4From (octets ++ [decimal group]) 0 false rest = some address := by
  obtain ⟨hdot, _⟩ | ⟨group, rest, rfl, hdot, _⟩ := Bytes.split_cases dot text
  · rw [parseIpv4From_last _ hdot, if_neg (by omega)] at h
    cases h
  · rw [parseIpv4From_group _ _ hdot] at h
    split at h
    · rename_i hgroup
      exact ⟨group, rest, rfl, hgroup.1, h⟩
    · cases h

/-- The four octets take a byte each. -/
theorem addressOf_eq {a b c d : Nat} (ha : a ≤ 255) (hb : b ≤ 255) (hc : c ≤ 255) :
    a ||| b <<< 8 ||| c <<< 16 ||| d <<< 24 = addressOf a b c d := by
  have join : ∀ (low high k : Nat), low < 2 ^ k → low ||| high <<< k = low + 2 ^ k * high := by
    intro low high k h
    rw [Nat.or_comm, ← Nat.shiftLeft_add_eq_or_of_lt h, Nat.shiftLeft_eq, Nat.mul_comm, Nat.add_comm]
  rw [join a b 8 (by omega), join _ c 16 (by omega), join _ d 24 (by omega)]
  rfl

theorem parseIpv4_dotted {a b c d : Bytes} (ha : IsGroup a) (hb : IsGroup b) (hc : IsGroup c)
    (hd : IsGroup d) :
    parseIpv4 (dotted a b c d) =
      some (addressOf (decimal a) (decimal b) (decimal c) (decimal d)) := by
  rw [parseIpv4, dotted, parseIpv4From_group _ _ ha.no_dot, if_pos ⟨ha, by decide⟩,
    parseIpv4From_group _ _ hb.no_dot, if_pos ⟨hb, by simp⟩,
    parseIpv4From_group _ _ hc.no_dot, if_pos ⟨hc, by simp⟩,
    parseIpv4From_last _ hd.no_dot, if_pos ⟨hd, by simp⟩, ← addressOf_eq ha.2 hb.2 hc.2]
  rfl

/-- The accepted texts and their addresses. -/
theorem parseIpv4_eq_some {text : Bytes} {address : Nat} :
    parseIpv4 text = some address ↔ ∃ a b c d, text = dotted a b c d ∧ IsGroup a ∧ IsGroup b ∧
      IsGroup c ∧ IsGroup d ∧
      address = addressOf (decimal a) (decimal b) (decimal c) (decimal d) := by
  constructor
  · intro h
    obtain ⟨a, rest, rfl, ha, h⟩ := parseIpv4From_some (by decide) h
    obtain ⟨b, rest, rfl, hb, h⟩ := parseIpv4From_some (by simp) h
    obtain ⟨c, d, rfl, hc, h⟩ := parseIpv4From_some (by simp) h
    have hd : IsGroup d := by
      obtain ⟨hdot, _⟩ | ⟨d, rest, rfl, hdot, _⟩ := Bytes.split_cases dot d
      · rw [parseIpv4From_last _ hdot] at h
        split at h
        · rename_i hgroup
          exact hgroup.1
        · cases h
      · rw [parseIpv4From_group _ _ hdot, if_neg (by simp)] at h
        cases h
    refine ⟨a, b, c, d, rfl, ha, hb, hc, hd, ?_⟩
    rw [parseIpv4From_last _ hd.no_dot, if_pos ⟨hd, by simp⟩] at h
    rw [← addressOf_eq ha.2 hb.2 hc.2]
    exact (Option.some.inj h).symm
  · rintro ⟨a, b, c, d, rfl, ha, hb, hc, hd, rfl⟩
    exact parseIpv4_dotted ha hb hc hd

/-! ## `print_ipv4` -/

theorem addressOf_bytes {address : Nat} (h : address < 2 ^ 32) :
    addressOf (address &&& 0xff) (address >>> 8 &&& 0xff) (address >>> 16 &&& 0xff)
      (address >>> 24 &&& 0xff) = address := by
  have hmask : ∀ n, n &&& 0xff = n % 256 := fun n => Nat.and_two_pow_sub_one_eq_mod n 8
  simp only [addressOf, hmask, Nat.shiftRight_eq_div_pow]
  omega

theorem isGroup_decimalText {value : Nat} (h : value ≤ 255) :
    IsGroup (decimalText value) ∧ decimal (decimalText value) = value := by
  obtain ⟨hnumeral, hvalue, _⟩ := isNumeral_decimalText value
  exact ⟨⟨hnumeral, by rw [hvalue]; exact h⟩, hvalue⟩

/-- The text of an address is parsed to that address. -/
theorem parseIpv4_ipv4Text {address : Nat} (h : address < 2 ^ 32) :
    parseIpv4 (ipv4Text address) = some address := by
  have hbyte : ∀ n, n &&& 0xff ≤ 255 := fun n => Nat.and_le_right
  obtain ⟨ha, hva⟩ := isGroup_decimalText (hbyte address)
  obtain ⟨hb, hvb⟩ := isGroup_decimalText (hbyte (address >>> 8))
  obtain ⟨hc, hvc⟩ := isGroup_decimalText (hbyte (address >>> 16))
  obtain ⟨hd, hvd⟩ := isGroup_decimalText (hbyte (address >>> 24))
  rw [ipv4Text, parseIpv4_dotted ha hb hc hd, hva, hvb, hvc, hvd, addressOf_bytes h]

/-- The bytes of an address are its octets. -/
theorem bytes_addressOf {a b c d : Nat} (ha : a ≤ 255) (hb : b ≤ 255) (hc : c ≤ 255)
    (hd : d ≤ 255) :
    addressOf a b c d &&& 0xff = a ∧ addressOf a b c d >>> 8 &&& 0xff = b ∧
      addressOf a b c d >>> 16 &&& 0xff = c ∧ addressOf a b c d >>> 24 &&& 0xff = d := by
  have hmask : ∀ n, n &&& 0xff = n % 256 := fun n => Nat.and_two_pow_sub_one_eq_mod n 8
  simp only [addressOf, hmask, Nat.shiftRight_eq_div_pow]
  omega

/-- The canonical form of a dotted text: each group without leading zeros. -/
theorem ipv4Text_addressOf {a b c d : Bytes} (ha : IsGroup a) (hb : IsGroup b) (hc : IsGroup c)
    (hd : IsGroup d) :
    ipv4Text (addressOf (decimal a) (decimal b) (decimal c) (decimal d)) =
      dotted (decimalText (decimal a)) (decimalText (decimal b)) (decimalText (decimal c))
        (decimalText (decimal d)) := by
  obtain ⟨h₁, h₂, h₃, h₄⟩ := bytes_addressOf ha.2 hb.2 hc.2 hd.2
  rw [ipv4Text, h₁, h₂, h₃, h₄]

namespace Payload

open Interaction

theorem runs_writeAll_single {c : UInt8} {t : Trace Call Reply} {n : Int}
    (h : Runs (writeAll 1 [c]) t n) : ∃ r, t = [(.write 1 [c], r)] := by
  obtain hlast | ⟨_, v, w, rfl, hturn, hrest⟩ := runs_loop.mp h
  · obtain ⟨hnil, _⟩ | ⟨_, r, rfl, _⟩ := writeTurn_cases hlast
    · cases hnil
    · exact ⟨r, rfl⟩
  · obtain ⟨hnil, _⟩ | ⟨_, r, rfl, ⟨_, hy⟩ | ⟨hpos, hy⟩⟩ := writeTurn_cases hturn
    · cases hnil
    · cases hy
    · cases hy
      rw [List.drop_of_length_le (by simp; omega)] at hrest
      obtain hlast | ⟨_, v, w, rfl, hturn, _⟩ := runs_loop.mp hrest
      · obtain ⟨_, rfl, _⟩ | ⟨hne, _⟩ := writeTurn_cases hlast
        · exact ⟨r, rfl⟩
        · exact absurd rfl hne
      · obtain ⟨_, _, hy⟩ | ⟨hne, _⟩ := writeTurn_cases hturn
        · cases hy
        · exact absurd rfl hne

/-- A single byte is offered once, whatever the kernel answers. -/
theorem prints_putsRaw (c : UInt8) : Prints (putsRaw [c]) [c] := by
  intro t
  rw [putsRaw, show (writeAll 1 [c] >>= fun _ => pure ()) = Prog.bind (writeAll 1 [c]) fun _ =>
    .ret () from rfl, runs_bind]
  constructor
  · rintro ⟨u, v, n, rfl, hwrite, hret⟩
    obtain ⟨r, rfl⟩ := runs_writeAll_single hwrite
    obtain ⟨rfl, _⟩ := runs_ret.mp hret
    rfl
  · intro ht
    obtain ⟨⟨c', r⟩, rfl, hcall⟩ := List.map_eq_singleton_iff.mp ht
    cases hcall
    obtain ⟨n, _, t, hruns, hserves⟩ := writeAll_returns (fun _ _ => (r, ())) () 1 [c]
    obtain ⟨r', rfl⟩ := runs_writeAll_single hruns
    obtain rfl : r = r' := hserves.1
    exact ⟨_, [], n, rfl, hruns, .ret⟩

theorem prints_printIpv4 (address : Nat) : Prints (printIpv4 address) (ipv4Text address) := by
  apply (prints_printUnsigned _).bind
  apply (prints_putsRaw dot).bind
  apply (prints_printUnsigned _).bind
  apply (prints_putsRaw dot).bind
  apply (prints_printUnsigned _).bind
  apply (prints_putsRaw dot).bind
  exact prints_printUnsigned _

end Payload

/-- `parse_ipv4` stays inside its array and its words, accepts exactly the
dotted texts, and inverts `print_ipv4`, which writes canonical ones. -/
theorem ipv4_text_exact (text : Bytes) :
    parseIpv4In (List.replicate 4 none) 0 0 false text = some (parseIpv4 text) ∧
      (∀ address, parseIpv4 text = some address ↔ ∃ a b c d, text = dotted a b c d ∧ IsGroup a ∧
        IsGroup b ∧ IsGroup c ∧ IsGroup d ∧
        address = addressOf (decimal a) (decimal b) (decimal c) (decimal d)) ∧
      (∀ address, Payload.Prints (Payload.printIpv4 address) (ipv4Text address)) ∧
      (∀ address, address < 2 ^ 32 → parseIpv4 (ipv4Text address) = some address) ∧
      ∀ a b c d, IsGroup a → IsGroup b → IsGroup c → IsGroup d →
        (parseIpv4 (dotted a b c d)).map ipv4Text =
          some (dotted (decimalText (decimal a)) (decimalText (decimal b))
            (decimalText (decimal c)) (decimalText (decimal d))) := by
  refine ⟨?_, fun address => parseIpv4_eq_some, fun address => Payload.prints_printIpv4 address,
    fun address h => parseIpv4_ipv4Text h, fun a b c d ha hb hc hd => ?_⟩
  · exact @parseIpv4In_eq [] (List.replicate 4 none) 0 false text (by simp) rfl (by decide) (by decide)
  · rw [parseIpv4_dotted ha hb hc hd, Option.map_some, ipv4Text_addressOf ha hb hc hd]

/-- Leading zeros are accepted and not written. -/
theorem ipv4_text_exact_zeros :
    (parseIpv4 (ascii "010.0.007.255")).map ipv4Text = some (ascii "10.0.7.255") := by
  obtain ⟨_, _, _, _, hcanonical⟩ := ipv4_text_exact []
  exact hcanonical (ascii "010") (ascii "0") (ascii "007") (ascii "255") (by decide +kernel)
    (by decide +kernel) (by decide +kernel) (by decide +kernel)

end LinuxBuild
