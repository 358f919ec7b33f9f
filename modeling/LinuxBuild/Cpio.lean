import Mathlib.Data.List.Forall2
import Mathlib.Data.List.TakeWhile
import LinuxBuild.UserElf

/-!
# Initramfs archives

The newc format as an archive is written in it, and what `user_elf` makes of an
archive. It looks for the name of the trailer where it has already taken the
leading `./` and `/` off, so that an entry can pass for the trailer.
-/

namespace LinuxBuild.Cpio

open Python UserElf

structure Entry where
  name : Bytes
  body : Bytes
  deriving DecidableEq

/-! ## The format -/

/-- How many bytes are missing to a multiple of four. -/
def padding (n : Nat) : Nat := (4 - n % 4) % 4

/-- The parts of a header that are read; nothing depends on the others. -/
structure IsHeader (header : Bytes) (size namesize : Nat) : Prop where
  length : header.length = 110
  magic : slice header 0 6 = ascii "070701" ∨ slice header 0 6 = ascii "070702"
  size : IsHex8 (slice header 54 62) size
  namesize : IsHex8 (slice header 94 102) namesize

/-- An entry with its header, the NUL of its name, and both paddings. -/
inductive Written (e : Entry) : Bytes → Prop
  | entry {header fill tail : Bytes} (head : IsHeader header e.body.length (e.name.length + 1))
      (hfill : fill.length = padding (110 + (e.name.length + 1)))
      (htail : tail.length = padding e.body.length) :
      Written e (header ++ (e.name ++ (0 :: fill ++ (e.body ++ tail))))

inductive Entries : List Entry → Bytes → Prop
  | nil : Entries [] []
  | cons {e : Entry} {es : List Entry} {bytes rest : Bytes} (first : Written e bytes)
      (others : Entries es rest) : Entries (e :: es) (bytes ++ rest)

def trailerName : Bytes := ascii "TRAILER!!!"

/-- The entries, the trailer, and whatever follows. -/
structure Archive (entries : List Entry) (data : Bytes) : Prop where
  names : ∀ e ∈ entries, e.name ≠ trailerName
  layout : ∃ front trailer back body, data = front ++ (trailer ++ back) ∧ Entries entries front ∧
    Written ⟨trailerName, body⟩ trailer

/-! ## Writing an archive -/

def hexChar (d : Nat) : UInt8 := UInt8.ofNat (if d < 10 then d + 48 else d + 87)

def hexText : Nat → Nat → Bytes
  | 0, _ => []
  | k + 1, n => hexText k (n / 16) ++ [hexChar (n % 16)]

def header (size namesize : Nat) : Bytes :=
  ascii "070701" ++ (List.replicate 48 '0'.toUInt8 ++ (hexText 8 size ++
    (List.replicate 32 '0'.toUInt8 ++ (hexText 8 namesize ++ List.replicate 8 '0'.toUInt8))))

def writeEntry (e : Entry) : Bytes :=
  header e.body.length (e.name.length + 1) ++
    (e.name ++ (0 :: List.replicate (padding (110 + (e.name.length + 1))) 0 ++
      (e.body ++ List.replicate (padding e.body.length) 0)))

def archive (entries : List Entry) : Bytes :=
  entries.flatMap writeEntry ++ writeEntry ⟨trailerName, []⟩

/-- The lengths fit into their fields. -/
def Entry.Writable (e : Entry) : Prop :=
  e.body.length < 0x100000000 ∧ e.name.length + 1 < 0x100000000

instance (e : Entry) : Decidable e.Writable := inferInstanceAs (Decidable (_ ∧ _))

theorem hexDigit_hexChar {d : Nat} (h : d < 16) : hexDigit (hexChar d) = some d := by
  have hall : ∀ d < 16, hexDigit (hexChar d) = some d := by decide
  exact hall d h

theorem hexText_length (k n : Nat) : (hexText k n).length = k := by
  induction k generalizing n with
  | zero => rfl
  | succ k ih => rw [hexText, List.length_append, ih, List.length_singleton]

theorem hexText_digits (k n : Nat) : ∀ c ∈ hexText k n, (hexDigit c).isSome = true := by
  induction k generalizing n with
  | zero => simp [hexText]
  | succ k ih =>
    intro c hc
    obtain hc | hc := List.mem_append.mp hc
    · exact ih _ c hc
    · rw [List.mem_singleton.mp hc, hexDigit_hexChar (Nat.mod_lt _ (by decide))]
      rfl

/-- How many numbers have `k` digits. -/
def hexRoom : Nat → Nat
  | 0 => 1
  | k + 1 => 16 * hexRoom k

theorem hexValue_hexText {k n : Nat} (h : n < hexRoom k) : hexValue (hexText k n) = n := by
  induction k generalizing n with
  | zero =>
    obtain rfl : n = 0 := Nat.lt_one_iff.mp h
    rfl
  | succ k ih =>
    have hfront : n / 16 < hexRoom k := Nat.div_lt_of_lt_mul h
    have hconcat : hexValue (hexText (k + 1) n) =
        16 * hexValue (hexText k (n / 16)) + (hexDigit (hexChar (n % 16))).getD 0 := by
      rw [hexText, hexValue, List.foldl_append]
      rfl
    rw [hconcat, ih hfront, hexDigit_hexChar (Nat.mod_lt _ (by decide)), Option.getD_some]
    omega

theorem isHex8_hexText {n : Nat} (h : n < 0x100000000) : IsHex8 (hexText 8 n) n :=
  ⟨hexText_length 8 n, hexText_digits 8 n, hexValue_hexText h⟩

theorem isHeader_header {size namesize : Nat} (h : size < 0x100000000)
    (h' : namesize < 0x100000000) : IsHeader (header size namesize) size namesize := by
  have hsize : slice (header size namesize) 54 62 = hexText 8 size :=
    slice_at (ascii "070701" ++ List.replicate 48 '0'.toUInt8) (hexText 8 size) _ (by decide)
      (by rw [hexText_length]; decide)
  have hnamesize : slice (header size namesize) 94 102 = hexText 8 namesize := by
    have := slice_at (ascii "070701" ++ (List.replicate 48 '0'.toUInt8 ++ (hexText 8 size ++
      List.replicate 32 '0'.toUInt8))) (hexText 8 namesize) (List.replicate 8 '0'.toUInt8)
      (a := 94) (b := 102) (by simp [hexText_length]; decide) (by simp [hexText_length]; decide)
    simpa only [header, List.append_assoc] using this
  refine ⟨?_, .inl ?_, hsize ▸ isHex8_hexText h, hnamesize ▸ isHex8_hexText h'⟩
  · simp only [header, List.length_append, List.length_replicate, hexText_length]
    decide
  · exact slice_at [] (ascii "070701") _ (by decide) (by decide)

theorem written_writeEntry {e : Entry} (h : e.Writable) : Written e (writeEntry e) :=
  .entry (isHeader_header h.1 h.2) (List.length_replicate ..) (List.length_replicate ..)

/-- Any entries whose lengths fit can be written. -/
theorem archive_archive {entries : List Entry} (hfits : ∀ e ∈ entries, e.Writable)
    (hnames : ∀ e ∈ entries, e.name ≠ trailerName) : Archive entries (archive entries) := by
  refine ⟨hnames, _, _, [], [], by rw [archive, List.append_nil], ?_,
    written_writeEntry (by decide)⟩
  clear hnames
  induction entries with
  | nil => exact .nil
  | cons e es ih =>
    rw [List.forall_mem_cons] at hfits
    exact .cons (written_writeEntry hfits.1) (ih hfits.2)

/-! ## What the entries say -/

/-- The name without a leading `./` and leading slashes. -/
def baseName (name : Bytes) : Bytes :=
  (if ascii "./" <+: name then name.drop 2 else name).dropWhile (· = '/'.toUInt8)

def wantedNames (variant : Text) : List Bytes :=
  if variant = text "tiny_shell" then [ascii "init"]
  else [ascii "bin/busybox", ascii "usr/bin/busybox"]

def UnderModules (e : Entry) : Prop :=
  ascii "lib/modules/" <+: baseName e.name ∨ ascii "usr/lib/modules/" <+: baseName e.name

instance (e : Entry) : Decidable (UnderModules e) := inferInstanceAs (Decidable (_ ∨ _))

def IsUserElf (variant : Text) (e : Entry) : Prop :=
  baseName e.name ∈ wantedNames variant ∧ elfMagic <+: e.body

instance (variant : Text) (e : Entry) : Decidable (IsUserElf variant e) :=
  inferInstanceAs (Decidable (_ ∧ _))

def elfFlags (bits : Nat) (body : Bytes) : Option Nat := unpack32 body (if bits = 32 then 36 else 48)

/-- The class, the machine and the float ABI that the package has. -/
def Fits (variant : Text) (bits : Nat) (body : Bytes) : Prop :=
  body[4]?.map UInt8.toNat = some (if bits = 32 then 1 else 2) ∧ unpack16 body 18 = some 243 ∧
    (elfFlags bits body).map (· &&& 6) = some (if variant = text "tiny_shell" then 0 else 4)

instance (variant : Text) (bits : Nat) (body : Bytes) : Decidable (Fits variant bits body) :=
  inferInstanceAs (Decidable (_ ∧ _))

/-- An entry that must not be in the archive. -/
def Rejected (variant : Text) (bits : Nat) (e : Entry) : Prop :=
  UnderModules e ∨ IsUserElf variant e ∧ ¬ Fits variant bits e.body

instance (variant : Text) (bits : Nat) (e : Entry) : Decidable (Rejected variant bits e) :=
  inferInstanceAs (Decidable (_ ∨ _))

def record (bits : Nat) (e : Entry) : Record :=
  ⟨(Utf8.decodeStrict (baseName e.name)).getD [], bits, (elfFlags bits e.body).getD 0⟩

/-- The last user ELF, unless an entry must not be there. -/
def lastElf (variant : Text) (bits : Nat) (entries : List Entry) : Option Record :=
  if ∃ e ∈ entries, Rejected variant bits e then none
  else ((entries.filter (IsUserElf variant ·)).getLast?).map (record bits)

/-- The name decodes, and is not taken for the trailer's. -/
def Readable (e : Entry) : Prop :=
  (Utf8.decodeStrict e.name).isSome = true ∧ baseName e.name ≠ trailerName

instance (e : Entry) : Decidable (Readable e) := inferInstanceAs (Decidable (_ ∧ _))

/-! ## Names and their bytes -/

theorem toUInt8_eq (c : Char) : c.toUInt8 = UInt8.ofNat c.toNat := rfl

/-- ASCII text stands in front of a decoded name where its bytes stand in front
of the name. -/
theorem decode_starts {w : Text} (hw : w.all (·.toNat < 0x80) = true) {bytes : Bytes} {t : Text}
    (h : Utf8.decodeStrict bytes = some t) :
    (w <+: t ↔ w.map Char.toUInt8 <+: bytes) ∧
      ∀ rest, bytes = w.map Char.toUInt8 ++ rest → Utf8.decodeStrict rest = some (t.drop w.length) := by
  induction w generalizing bytes t with
  | nil =>
    refine ⟨by simp, ?_⟩
    rintro rest rfl
    exact h
  | cons c w ih =>
    rw [List.all_cons, Bool.and_eq_true, decide_eq_true_eq] at hw
    have hbyte : (UInt8.ofNat c.toNat).toNat = c.toNat := by
      rw [UInt8.toNat_ofNat']
      omega
    have hcons : ∀ rest, bytes = c.toUInt8 :: rest →
        ∃ t', t = c :: t' ∧ Utf8.decodeStrict rest = some t' := by
      rintro rest rfl
      rw [toUInt8_eq, Utf8.decodeStrict_cons rest (by omega), hbyte, Char.ofNat_toNat] at h
      obtain ⟨t', ht', rfl⟩ := Option.map_eq_some_iff.mp h
      exact ⟨t', rfl, ht'⟩
    constructor
    · constructor
      · rintro ⟨more, rfl⟩
        obtain ⟨rest, rfl, hrest⟩ := Utf8.decodeStrict_eq_cons h hw.1
        rw [List.map_cons, toUInt8_eq, List.prefix_cons_inj]
        exact (ih hw.2 hrest).1.mp (List.prefix_append _ _)
      · rintro ⟨more, rfl⟩
        obtain ⟨t', rfl, ht'⟩ := hcons _ rfl
        rw [List.prefix_cons_inj]
        exact (ih hw.2 ht').1.mpr (List.prefix_append _ _)
    · rintro rest rfl
      obtain ⟨t', rfl, ht'⟩ := hcons _ rfl
      rw [List.length_cons, List.drop_succ_cons]
      exact (ih hw.2 ht').2 rest rfl

theorem decode_eq {w : Text} (hw : w.all (·.toNat < 0x80) = true) {bytes : Bytes} {t : Text}
    (h : Utf8.decodeStrict bytes = some t) : t = w ↔ bytes = w.map Char.toUInt8 := by
  obtain ⟨hstarts, hdrop⟩ := decode_starts hw h
  constructor
  · rintro rfl
    obtain ⟨rest, rfl⟩ := hstarts.mp List.prefix_rfl
    have hrest := hdrop rest rfl
    rw [List.drop_length] at hrest
    rw [Utf8.decodeStrict_eq_nil hrest, List.append_nil]
  · intro hbytes
    have hrest := hdrop [] (by rw [hbytes, List.append_nil])
    obtain ⟨more, rfl⟩ := hstarts.mpr (hbytes ▸ List.prefix_rfl)
    rw [List.drop_left, Utf8.decodeStrict_nil] at hrest
    cases hrest
    rw [List.append_nil]

theorem decode_dropSlashes {bytes : Bytes} {t : Text} (h : Utf8.decodeStrict bytes = some t) :
    Utf8.decodeStrict (bytes.dropWhile (· = '/'.toUInt8)) = some (t.dropWhile (· = '/')) := by
  induction t generalizing bytes with
  | nil =>
    obtain rfl := Utf8.decodeStrict_eq_nil h
    rfl
  | cons c t ih =>
    by_cases hc : c = '/'
    · subst hc
      obtain ⟨rest, rfl, hrest⟩ := Utf8.decodeStrict_eq_cons h (by decide)
      have hslash : UInt8.ofNat '/'.toNat = '/'.toUInt8 := rfl
      rw [hslash, List.dropWhile_cons_of_pos (by simp), List.dropWhile_cons_of_pos (by simp)]
      exact ih hrest
    · rw [List.dropWhile_cons_of_neg (by simpa using hc)]
      cases bytes with
      | nil => cases h
      | cons b bytes =>
        have hb : b ≠ '/'.toUInt8 := by
          rintro rfl
          have hslash : ['/'] <+: c :: t :=
            (decode_starts (by decide) h).1.mpr (List.prefix_append ['/'.toUInt8] bytes)
          rw [List.cons_prefix_cons] at hslash
          exact hc hslash.1.symm
        rw [List.dropWhile_cons_of_neg (by simpa using hb)]
        exact h

/-- The text of a name is normalised as its bytes are. -/
theorem decode_baseName {name : Bytes} {t : Text} (h : Utf8.decodeStrict name = some t) :
    Utf8.decodeStrict (baseName name) = some (normalise t) := by
  obtain ⟨hstarts, hdrop⟩ := decode_starts (w := text "./") (by decide) h
  have hstart : startswith t (text "./") = true ↔ ascii "./" <+: name := by
    rw [startswith, List.isPrefixOf_iff_prefix]
    exact hstarts
  rw [baseName, normalise]
  apply decode_dropSlashes
  by_cases hdot : ascii "./" <+: name
  · rw [if_pos hdot, if_pos (hstart.mpr hdot)]
    obtain ⟨rest, rfl⟩ := hdot
    exact hdrop rest rfl
  · rw [if_neg hdot, if_neg fun hs => hdot (hstart.mp hs)]
    exact h

theorem normalise_starts {e : Entry} {t w : Text} (h : Utf8.decodeStrict e.name = some t)
    (hw : w.all (·.toNat < 0x80) = true) :
    startswith (normalise t) w = true ↔ w.map Char.toUInt8 <+: baseName e.name := by
  rw [startswith, List.isPrefixOf_iff_prefix]
  exact (decode_starts hw (decode_baseName h)).1

theorem normalise_modules {e : Entry} {t : Text} (h : Utf8.decodeStrict e.name = some t) :
    (startswith (normalise t) (text "lib/modules/") ||
      startswith (normalise t) (text "usr/lib/modules/")) = true ↔ UnderModules e := by
  rw [Bool.or_eq_true, normalise_starts h (by decide), normalise_starts h (by decide)]
  rfl

theorem normalise_trailer {e : Entry} {t : Text} (h : Utf8.decodeStrict e.name = some t) :
    normalise t = text "TRAILER!!!" ↔ baseName e.name = trailerName :=
  decode_eq (by decide) (decode_baseName h)

theorem normalise_wanted {e : Entry} {t : Text} (variant : Text)
    (h : Utf8.decodeStrict e.name = some t) :
    normalise t ∈ wanted variant ↔ baseName e.name ∈ wantedNames variant := by
  have hname : ∀ w : Text, w.all (·.toNat < 0x80) = true →
      (normalise t = w ↔ baseName e.name = w.map Char.toUInt8) :=
    fun w hw => decode_eq hw (decode_baseName h)
  rw [wanted, wantedNames]
  split
  · rw [List.mem_singleton, List.mem_singleton]
    exact hname _ (by decide)
  · simp only [List.mem_cons, List.not_mem_nil, or_false]
    exact or_congr (hname _ (by decide)) (hname _ (by decide))

/-! ## Reading an entry -/

theorem sizes_at {before header back : Bytes} {size namesize : Nat}
    (h : IsHeader header size namesize) :
    sizes (before ++ (header ++ back)) before.length = .ok (size, namesize) := by
  have hslice : slice (before ++ (header ++ back)) before.length (before.length + 110) = header :=
    slice_at before header back rfl (by rw [h.length]; rfl)
  have hmagic : (slice header 0 6 = ascii "070701" || slice header 0 6 = ascii "070702") = true := by
    simpa using h.magic
  rw [sizes, hslice]
  simp only [hmagic, require, int16_hex8 h.size, int16_hex8 h.namesize, orRaise]
  rfl

/-- An entry is read as it was written. -/
theorem member_at {e : Entry} {bytes before back : Bytes} (h : Written e bytes)
    (hbefore : before.length % 4 = 0) :
    bytes.length % 4 = 0 ∧
      member (before ++ (bytes ++ back)) before.length =
        match Utf8.decodeStrict e.name with
        | none => .error .decode
        | some name => .ok ⟨name, e.body, ((before ++ bytes).length : Nat)⟩ := by
  cases h with
  | @entry header fill tail head hfill htail =>
    have hlen := head.length
    have hbytes : (header ++ (e.name ++ (0 :: fill ++ (e.body ++ tail)))).length =
        110 + (e.name.length + 1) + fill.length + e.body.length + tail.length := by
      simp only [List.length_append, List.length_cons, hlen]
      omega
    rw [hbytes]
    refine ⟨by rw [hfill, htail]; simp only [padding]; omega, ?_⟩
    have hsizes : sizes (before ++ (header ++ (e.name ++ (0 :: fill ++ (e.body ++ tail))) ++ back))
        before.length = .ok (e.body.length, (e.name.length + 1 : Nat)) := by
      rw [List.append_assoc header]
      exact sizes_at head
    have hname : slice (before ++ (header ++ (e.name ++ (0 :: fill ++ (e.body ++ tail))) ++ back))
        (before.length + 110) (before.length + 110 + (e.name.length + 1 : Nat) - 1) = e.name := by
      have := slice_at (before ++ header) e.name (0 :: fill ++ (e.body ++ tail) ++ back)
        (a := before.length + 110) (b := before.length + 110 + (e.name.length + 1 : Nat) - 1)
        (by simp [hlen]) (by simp [hlen]; omega)
      simpa only [List.append_assoc] using this
    have hstart : align4 (before.length + 110 + (e.name.length + 1 : Nat)) =
        ((before ++ (header ++ (e.name ++ (0 :: fill)))).length : Nat) := by
      simp only [List.length_append, List.length_cons, hlen, hfill, align4, padding]
      omega
    have hbody : slice (before ++ (header ++ (e.name ++ (0 :: fill ++ (e.body ++ tail))) ++ back))
        ((before ++ (header ++ (e.name ++ (0 :: fill)))).length : Nat)
        (((before ++ (header ++ (e.name ++ (0 :: fill)))).length : Nat) + (e.body.length : Nat)) =
          e.body := by
      have := slice_at (before ++ (header ++ (e.name ++ (0 :: fill)))) e.body (tail ++ back) rfl rfl
      simpa only [List.append_assoc, List.cons_append] using this
    have hnext : align4 (((before ++ (header ++ (e.name ++ (0 :: fill)))).length : Nat) +
        (e.body.length : Nat)) =
          ((before ++ (header ++ (e.name ++ (0 :: fill ++ (e.body ++ tail))))).length : Nat) := by
      simp only [List.length_append, List.length_cons, hlen, hfill, htail, align4, padding]
      omega
    simp only [member, hsizes, hname, hstart, hbody, hnext, bind, Except.bind]
    cases Utf8.decodeStrict e.name with
    | none => rfl
    | some name => rfl

/-! ## One turn -/

section

variable {variant : Text} {bits : Nat} {e : Entry} {bytes before back : Bytes} {found : Option Record}

/-- What the turn at an entry goes on with. -/
def passed (variant : Text) (bits : Nat) (found : Option Record) (e : Entry) : Option Record :=
  if IsUserElf variant e then some (record bits e) else found

theorem checkElf_fits {t : Text} (h : Utf8.decodeStrict e.name = some t)
    (hfits : Fits variant bits e.body) :
    checkElf variant bits (normalise t) e.body = .ok (record bits e) := by
  obtain ⟨hclass, hmachine, hflags⟩ := hfits
  obtain ⟨c, hc, hclass⟩ := Option.map_eq_some_iff.mp hclass
  obtain ⟨flags, hf, hfloat⟩ := Option.map_eq_some_iff.mp hflags
  have hpath : (Utf8.decodeStrict (baseName e.name)).getD [] = normalise t := by
    rw [decode_baseName h]
    rfl
  rw [record, hpath, hf]
  rw [elfFlags] at hf
  simp only [checkElf, hc, hmachine, hf, orRaise, require, hclass, hfloat, decide_true, if_true, bind,
    Except.bind]
  rfl

theorem checkElf_misfits {t : Text} (hmisfits : ¬ Fits variant bits e.body) :
    ∃ error, checkElf variant bits t e.body = .error error := by
  cases hcheck : checkElf variant bits t e.body with
  | error error => exact ⟨error, rfl⟩
  | ok r =>
    obtain ⟨c, hc, hrest⟩ := bind_ok hcheck
    obtain ⟨_, hclass, hrest⟩ := bind_ok hrest
    obtain ⟨machine, hm, hrest⟩ := bind_ok hrest
    obtain ⟨_, hmachine, hrest⟩ := bind_ok hrest
    obtain ⟨flags, hf, hrest⟩ := bind_ok hrest
    obtain ⟨_, hfloat, _⟩ := bind_ok hrest
    have hclass := of_decide_eq_true (require_ok hclass)
    have hmachine := of_decide_eq_true (require_ok hmachine)
    have hfloat := of_decide_eq_true (require_ok hfloat)
    refine absurd ⟨?_, ?_, ?_⟩ hmisfits
    · rw [orRaise_ok hc, Option.map_some, hclass]
    · rw [orRaise_ok hm, hmachine]
    · rw [elfFlags, orRaise_ok hf, Option.map_some, hfloat]

theorem turn_at (h : Written e bytes) (hbefore : before.length % 4 = 0) :
    turn variant bits (before ++ (bytes ++ back)) ⟨before.length, found⟩ =
      match Utf8.decodeStrict e.name with
      | none => .error .decode
      | some name => judge variant bits found ⟨name, e.body, ((before ++ bytes).length : Nat)⟩ := by
  have hroom : (before.length : Int) + 110 ≤ ((before ++ (bytes ++ back)).length : Nat) := by
    cases h with
    | entry head _ _ =>
      simp only [List.length_append, head.length]
      omega
  rw [turn, if_pos hroom]
  simp only [(member_at h hbefore).2]
  cases Utf8.decodeStrict e.name with
  | none => rfl
  | some name => rfl

theorem turn_rejected (h : Written e bytes) (hbefore : before.length % 4 = 0)
    (hrejected : Rejected variant bits e) :
    ∃ error, turn variant bits (before ++ (bytes ++ back)) ⟨before.length, found⟩ = .error error := by
  rw [turn_at h hbefore]
  cases hname : Utf8.decodeStrict e.name with
  | none => exact ⟨_, rfl⟩
  | some t =>
    by_cases hmodules : UnderModules e
    · simp only [judge, (normalise_modules hname).mpr hmodules, require]
      exact ⟨_, rfl⟩
    · obtain ⟨helf, hmisfits⟩ := hrejected.resolve_left hmodules
      have hplain := Bool.eq_false_iff.mpr (mt (normalise_modules hname).mp hmodules)
      have hnot : normalise t ≠ text "TRAILER!!!" := by
        intro htrailer
        have hmem := helf.1
        rw [(normalise_trailer hname).mp htrailer, wantedNames] at hmem
        revert hmem
        split <;> decide
      obtain ⟨error, hcheck⟩ := checkElf_misfits (t := normalise t) hmisfits
      simp only [judge, hplain, require, Bool.not_false, if_true, if_neg hnot,
        if_pos (And.intro ((normalise_wanted variant hname).mpr helf.1) helf.2), hcheck]
      exact ⟨error, rfl⟩

theorem turn_passed (h : Written e bytes) (hbefore : before.length % 4 = 0)
    (hallowed : ¬ Rejected variant bits e) (hreadable : Readable e) :
    turn variant bits (before ++ (bytes ++ back)) ⟨before.length, found⟩ =
      .ok (.inl ⟨((before ++ bytes).length : Nat), passed variant bits found e⟩) := by
  obtain ⟨hdecodes, hnot⟩ := hreadable
  obtain ⟨t, hname⟩ := Option.isSome_iff_exists.mp hdecodes
  have hplain := Bool.eq_false_iff.mpr (mt (normalise_modules hname).mp fun hm => hallowed (.inl hm))
  have hnot := mt (normalise_trailer hname).mp hnot
  rw [turn_at h hbefore, hname, passed]
  simp only [judge, hplain, require, Bool.not_false, if_true, if_neg hnot]
  by_cases helf : IsUserElf variant e
  · have hfits : Fits variant bits e.body := by
      by_cases hfits : Fits variant bits e.body
      · exact hfits
      · exact absurd (.inr ⟨helf, hfits⟩) hallowed
    rw [if_pos ⟨(normalise_wanted variant hname).mpr helf.1, helf.2⟩, if_pos helf,
      checkElf_fits hname hfits]
    rfl
  · rw [if_neg fun hw => helf ⟨(normalise_wanted variant hname).mp hw.1, hw.2⟩, if_neg helf]
    rfl

theorem turn_unreadable (h : Written e bytes) (hbefore : before.length % 4 = 0)
    (hallowed : ¬ Rejected variant bits e) (hunreadable : ¬ Readable e) :
    turn variant bits (before ++ (bytes ++ back)) ⟨before.length, found⟩ = .error .decode ∨
      turn variant bits (before ++ (bytes ++ back)) ⟨before.length, found⟩ = .ok (.inr found) := by
  rw [turn_at h hbefore]
  cases hname : Utf8.decodeStrict e.name with
  | none => exact .inl rfl
  | some t =>
    right
    have htrailer : baseName e.name = trailerName := by
      by_cases htrailer : baseName e.name = trailerName
      · exact htrailer
      · exact absurd ⟨by rw [hname]; rfl, htrailer⟩ hunreadable
    have hplain :=
      Bool.eq_false_iff.mpr (mt (normalise_modules hname).mp fun hm => hallowed (.inl hm))
    simp only [judge, hplain, require, Bool.not_false, if_true,
      if_pos ((normalise_trailer hname).mpr htrailer)]
    rfl

end

theorem turn_trailer {variant : Text} {bits : Nat} {body bytes before back : Bytes}
    {found : Option Record} (h : Written ⟨trailerName, body⟩ bytes) (hbefore : before.length % 4 = 0) :
    turn variant bits (before ++ (bytes ++ back)) ⟨before.length, found⟩ = .ok (.inr found) := by
  have hname : Utf8.decodeStrict trailerName = some (text "TRAILER!!!") := by decide +kernel
  rw [turn_at h hbefore, hname]
  rfl

/-! ## The whole archive -/

/-- At this state the loop reads the entry. -/
def Visits (data : Bytes) (s : Scan) (e : Entry) : Prop :=
  ∃ m, member data s.offset = .ok m ∧ Utf8.decodeStrict e.name = some m.name ∧ m.body = e.body

/-- The entries before the first that must not be there. -/
def allowed (variant : Text) (bits : Nat) (entries : List Entry) : List Entry :=
  entries.takeWhile (¬ Rejected variant bits ·)

theorem allowed_cons {variant : Text} {bits : Nat} {e : Entry} (h : ¬ Rejected variant bits e)
    (es : List Entry) : allowed variant bits (e :: es) = e :: allowed variant bits es :=
  List.takeWhile_cons_of_pos (by simpa using h)

/-- `user_elf` visits the entries of the archive as they were written, until one
of them must not be there, and returns the last user ELF. -/
def ReadsBack (variant : Text) (bits : Nat) (entries : List Entry) (data : Bytes) : Prop :=
  ∃ visited result, Loop.Ends (turn variant bits data) start visited result ∧
    List.Forall₂ (Visits data) visited (allowed variant bits entries) ∧
    (conclude result).toOption = lastElf variant bits entries

/-- How the loop ends behind the entries, if none of them stops it. -/
def outcome (variant : Text) (bits : Nat) (found : Option Record) (entries : List Entry) :
    Option (Option Record) :=
  if ∃ e ∈ entries, Rejected variant bits e then none
  else some (entries.foldl (passed variant bits) found)

theorem outcome_cons {variant : Text} {bits : Nat} {e : Entry} (h : ¬ Rejected variant bits e)
    (found : Option Record) (es : List Entry) :
    outcome variant bits found (e :: es) = outcome variant bits (passed variant bits found e) es := by
  simp only [outcome, List.exists_mem_cons_iff, h, false_or, List.foldl_cons]

theorem foldl_passed (variant : Text) (bits : Nat) (found : Option Record) (entries : List Entry) :
    entries.foldl (passed variant bits) found =
      (((entries.filter (IsUserElf variant ·)).getLast?).map (record bits)).or found := by
  induction entries generalizing found with
  | nil => rfl
  | cons e es ih =>
    rw [List.foldl_cons, ih, passed]
    by_cases helf : IsUserElf variant e
    · rw [if_pos helf, List.filter_cons_of_pos (by simpa using helf), List.getLast?_cons]
      cases (es.filter (IsUserElf variant ·)).getLast? <;> rfl
    · rw [if_neg helf, List.filter_cons_of_neg (by simpa using helf)]

/-- The loop from any entry on: it visits the entries up to the first that stops
it, and if that is one that must not be there, the outcome is that of the entries. -/
theorem scan {variant : Text} {bits : Nat} {es : List Entry} {front trailer back body data : Bytes}
    (h : Entries es front) (htrailer : Written ⟨trailerName, body⟩ trailer) {before : Bytes}
    {found : Option Record} (hbefore : before.length % 4 = 0)
    (hdata : data = before ++ (front ++ (trailer ++ back))) :
    ∃ visited result, Loop.Ends (turn variant bits data) ⟨before.length, found⟩ visited result ∧
      List.Forall₂ (Visits data) visited
        ((allowed variant bits es).takeWhile (Readable ·)) ∧
      ((∀ e ∈ allowed variant bits es, Readable e) →
        result.toOption = outcome variant bits found es) := by
  induction h generalizing before found with
  | nil =>
    refine ⟨[], .ok found, .done ?_, .nil, fun _ => rfl⟩
    rw [hdata, List.nil_append]
    exact turn_trailer htrailer hbefore
  | @cons e es bytes rest first others ih =>
    have hat : data = before ++ (bytes ++ (rest ++ (trailer ++ back))) := by
      rw [hdata, List.append_assoc]
    by_cases hrejected : Rejected variant bits e
    · obtain ⟨error, hturn⟩ : ∃ error, turn variant bits data ⟨before.length, found⟩ = .error error :=
        hat ▸ turn_rejected first hbefore hrejected
      refine ⟨[], .error error, .raised hturn, ?_, fun _ => ?_⟩
      · rw [allowed, List.takeWhile_cons_of_neg (by simp [hrejected])]
        exact .nil
      · rw [outcome, if_pos ⟨e, List.mem_cons_self, hrejected⟩]
        rfl
    by_cases hreadable : Readable e
    · have hturn : turn variant bits data ⟨before.length, found⟩ =
          .ok (.inl ⟨((before ++ bytes).length : Nat), passed variant bits found e⟩) :=
        hat ▸ turn_passed first hbefore hrejected hreadable
      have haligned : (before ++ bytes).length % 4 = 0 := by
        have := (@member_at e bytes before [] first hbefore).1
        rw [List.length_append]
        omega
      obtain ⟨visited, result, hends, hvisits, hresult⟩ :=
        ih haligned (by rw [hat, List.append_assoc])
      refine ⟨_, result, hends.again hturn, ?_, fun hall => ?_⟩
      · rw [allowed_cons hrejected, List.takeWhile_cons_of_pos (by simp [hreadable])]
        refine .cons ?_ hvisits
        obtain ⟨t, ht⟩ := Option.isSome_iff_exists.mp hreadable.1
        have hmember := (@member_at e bytes before (rest ++ (trailer ++ back)) first hbefore).2
        rw [ht] at hmember
        rw [hat]
        exact ⟨_, hmember, ht, rfl⟩
      · rw [outcome_cons hrejected]
        rw [allowed_cons hrejected, List.forall_mem_cons] at hall
        exact hresult hall.2
    · have hstop : ∃ result, Loop.Ends (turn variant bits data) ⟨before.length, found⟩ [] result := by
        obtain hturn | hturn := @turn_unreadable variant bits e bytes before
          (rest ++ (trailer ++ back)) found first hbefore hrejected hreadable
        · exact ⟨_, .raised (hat ▸ hturn)⟩
        · exact ⟨_, .done (hat ▸ hturn)⟩
      obtain ⟨result, hends⟩ := hstop
      refine ⟨[], result, hends, ?_, fun hall => ?_⟩
      · rw [allowed_cons hrejected, List.takeWhile_cons_of_neg (by simp [hreadable])]
        exact .nil
      · rw [allowed_cons hrejected, List.forall_mem_cons] at hall
        exact absurd hall.1 hreadable

/-- The archive is read back exactly when no name, as far as it has to be read,
is broken or passes for the trailer's. -/
theorem user_elf_reads_back_iff {variant : Text} {bits : Nat} {entries : List Entry} {data : Bytes}
    (h : Archive entries data) :
    ReadsBack variant bits entries data ↔ ∀ e ∈ allowed variant bits entries, Readable e := by
  obtain ⟨front, trailer, back, body, hdata, hfront, htrailer⟩ := h.layout
  obtain ⟨visited, result, hends, hvisits, hresult⟩ :=
    @scan variant bits entries front trailer back body data hfront htrailer [] none rfl hdata
  have hall : (allowed variant bits entries).takeWhile (Readable ·) = allowed variant bits entries ↔
      ∀ e ∈ allowed variant bits entries, Readable e := by
    rw [List.takeWhile_eq_self_iff]
    simp only [decide_eq_true_eq]
  rw [← hall]
  constructor
  · rintro ⟨visited', result', hends', hvisits', _⟩
    obtain ⟨rfl, _⟩ := hends.unique hends'
    have hlength := hvisits.length_eq.symm.trans hvisits'.length_eq
    exact List.IsPrefix.eq_of_length ( List.takeWhile_prefix _) hlength
  · intro hsame
    refine ⟨visited, result, hends, hsame ▸ hvisits, ?_⟩
    have hout := hresult (hall.mp hsame)
    rw [outcome, foldl_passed, Option.or_none] at hout
    rw [lastElf]
    split at hout
    · rename_i hrejected
      rw [if_pos hrejected]
      cases result with
      | error error => rfl
      | ok found => cases hout
    · rename_i hnone
      rw [if_neg hnone]
      cases result with
      | error error => cases hout
      | ok found =>
        cases hout
        cases (entries.filter (IsUserElf variant ·)).getLast? <;> rfl

/-- A 32-bit RISC-V ELF header. -/
def tinyElf : Bytes := elfMagic ++ [1] ++ List.replicate 13 0 ++ [0xf3, 0] ++ List.replicate 20 0

def initEntry : Entry := ⟨ascii "./init", tinyElf⟩

theorem user_elf_reads_back_init :
    ReadsBack (text "tiny_shell") 32 [initEntry] (archive [initEntry]) :=
  (user_elf_reads_back_iff (archive_archive (by decide) (by decide))).mpr (by decide +kernel)

/-- An ordinary entry, but the leading `./` hides the rest of the archive. -/
def shadowEntry : Entry := ⟨ascii "./TRAILER!!!", []⟩

theorem user_elf_stops_early :
    Archive [shadowEntry, initEntry] (archive [shadowEntry, initEntry]) ∧
      lastElf (text "tiny_shell") 32 [shadowEntry, initEntry] = some ⟨text "init", 32, 0⟩ ∧
      userElf 1 (text "tiny_shell") 32 (archive [shadowEntry, initEntry]) =
        some ([], .error (.value "cannot find the variant user ELF in rootfs")) ∧
      ¬ ReadsBack (text "tiny_shell") 32 [shadowEntry, initEntry]
        (archive [shadowEntry, initEntry]) := by
  have hrun : Loop.run (turn (text "tiny_shell") 32 (archive [shadowEntry, initEntry])) 1 start =
      some ([], .ok none) := by decide +kernel
  have hlast : lastElf (text "tiny_shell") 32 [shadowEntry, initEntry] =
      some ⟨text "init", 32, 0⟩ := by decide +kernel
  refine ⟨archive_archive (by decide) (by decide), hlast, ?_, ?_⟩
  · rw [userElf, hrun]
    rfl
  · rintro ⟨visited, result, hends, _, hresult⟩
    obtain ⟨_, rfl⟩ := Loop.Ends.unique ⟨1, hrun⟩ hends
    rw [hlast] at hresult
    cases hresult

end LinuxBuild.Cpio
