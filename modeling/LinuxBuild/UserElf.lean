import LinuxBuild.Fragment
import LinuxBuild.Loop
import LinuxBuild.PythonBytes
import LinuxBuild.StrictUtf8

/-!
# `user_elf`

The loop of `test-packages.py` over the entries of an initramfs, on any bytes
that `gzip.decompress` may give. It goes on only as long as the numbers in the
headers take it forward.
-/

namespace LinuxBuild.UserElf

open Python

/-- What is raised: a `ValueError` of the audit itself, or the exception of the
call that failed. -/
inductive Raised where
  | value (message : String)
  | literal
  | decode
  | index
  | struct
  deriving DecidableEq, Repr

/-- `found_elf`. -/
structure Record where
  path : Text
  bits : Nat
  flags : Nat
  deriving DecidableEq, Repr

def wanted (variant : Text) : List Text :=
  if variant = text "tiny_shell" then [text "init"]
  else [text "bin/busybox", text "usr/bin/busybox"]

def elfMagic : Bytes := 0x7f :: ascii "ELF"

/-- `(n + 3) & ~3`. -/
def align4 (n : Int) : Int := (n + 3) / 4 * 4

/-- `name.removeprefix('./').lstrip('/')`. -/
def normalise (name : Text) : Text :=
  (if startswith name (text "./") then name.drop 2 else name).dropWhile (· = '/')

/-! ## One entry -/

/-- `size` and `namesize`. -/
def sizes (data : Bytes) (offset : Int) : Except Raised (Int × Int) := do
  let header := slice data offset (offset + 110)
  require (slice header 0 6 = ascii "070701" || slice header 0 6 = ascii "070702")
    (.value "rootfs is not a newc CPIO archive")
  let size ← orRaise (int16 (slice header 54 62)) .literal
  let namesize ← orRaise (int16 (slice header 94 102)) .literal
  pure (size, namesize)

/-- An entry as the loop sees it, and the offset of the next one. -/
structure Member where
  name : Text
  body : Bytes
  next : Int

def member (data : Bytes) (offset : Int) : Except Raised Member := do
  let (size, namesize) ← sizes data offset
  let name ← orRaise
    (Utf8.decodeStrict (slice data (offset + 110) (offset + 110 + namesize - 1))) .decode
  let start := align4 (offset + 110 + namesize)
  pure ⟨name, slice data start (start + size), align4 (start + size)⟩

/-- The checks of an ELF that is wanted. -/
def checkElf (variant : Text) (bits : Nat) (name : Text) (body : Bytes) : Except Raised Record := do
  let differs := Raised.value "rootfs ELF architecture differs from package"
  let elfClass ← orRaise body[4]? .index
  require (elfClass.toNat = if bits = 32 then 1 else 2) differs
  let machine ← orRaise (unpack16 body 18) .struct
  require (machine = 243) differs
  let flags ← orRaise (unpack32 body (if bits = 32 then 36 else 48)) .struct
  require (flags &&& 6 = if variant = text "tiny_shell" then 0 else 4)
    (.value "rootfs ELF float ABI differs from package variant")
  pure ⟨name, bits, flags⟩

/-! ## The loop -/

structure Scan where
  offset : Int
  found : Option Record
  deriving DecidableEq, Repr

/-- The rest of a turn, with an entry read. -/
def judge (variant : Text) (bits : Nat) (found : Option Record) (m : Member) :
    Except Raised (Scan ⊕ Option Record) := do
  let name := normalise m.name
  require (!(startswith name (text "lib/modules/") || startswith name (text "usr/lib/modules/")))
    (.value "rootfs contains modules from the separate Buildroot kernel")
  if name = text "TRAILER!!!" then pure (.inr found)
  else if name ∈ wanted variant ∧ elfMagic <+: m.body then do
    let elf ← checkElf variant bits name m.body
    pure (.inl ⟨m.next, some elf⟩)
  else pure (.inl ⟨m.next, found⟩)

def turn (variant : Text) (bits : Nat) (data : Bytes) (s : Scan) :
    Except Raised (Scan ⊕ Option Record) :=
  if s.offset + 110 ≤ data.length then do
    let m ← member data s.offset
    judge variant bits s.found m
  else pure (.inr s.found)

def start : Scan := ⟨0, none⟩

/-- What `user_elf` makes of the end of its loop. -/
def conclude : Except Raised (Option Record) → Except Raised Record
  | .error e => .error e
  | .ok none => .error (.value "cannot find the variant user ELF in rootfs")
  | .ok (some elf) => .ok elf

/-- `user_elf` in at most `fuel` turns, with the states its turns went on from. -/
def userElf (fuel : Nat) (variant : Text) (bits : Nat) (data : Bytes) :
    Option (List Scan × Except Raised Record) :=
  (Loop.run (turn variant bits data) fuel start).map fun r => (r.1, conclude r.2)

/-! ## Progress -/

theorem align4_eq (n : Int) : ∃ k, align4 n = 4 * k ∧ n ≤ 4 * k ∧ 4 * k < n + 4 :=
  ⟨(n + 3) / 4, by rw [align4]; omega, by omega, by omega⟩

/-- A turn that goes on has read a header, and goes on where its numbers say. -/
theorem turn_on {variant : Text} {bits : Nat} {data : Bytes} {s s' : Scan}
    (h : turn variant bits data s = .ok (.inl s')) :
    s.offset + 110 ≤ data.length ∧ ∃ size namesize, sizes data s.offset = .ok (size, namesize) ∧
      s'.offset = align4 (align4 (s.offset + 110 + namesize) + size) := by
  rw [turn] at h
  split at h
  · rename_i hroom
    obtain ⟨m, hm, h⟩ := bind_ok h
    obtain ⟨⟨size, namesize⟩, hsizes, hm⟩ := bind_ok hm
    obtain ⟨name, _, hm⟩ := bind_ok hm
    cases hm
    refine ⟨hroom, size, namesize, hsizes, ?_⟩
    obtain ⟨_, _, h⟩ := bind_ok h
    split at h
    · cases h
    · split at h
      · obtain ⟨elf, _, h⟩ := bind_ok h
        cases h
        rfl
      · cases h
        rfl
  · cases h

/-- Every offset is a multiple of four. -/
theorem reaches_aligned {variant : Text} {bits : Nat} {data : Bytes} {s : Scan}
    (h : Loop.Reaches (turn variant bits data) start s) : ∃ k, s.offset = 4 * k := by
  cases h with
  | start => exact ⟨0, rfl⟩
  | again _ on =>
    obtain ⟨_, size, namesize, _, hnext⟩ := turn_on on
    obtain ⟨k, hk, _⟩ := align4_eq (align4 (_ + 110 + namesize) + size)
    exact ⟨k, hnext.trans hk⟩

/-- The numbers of a header take the loop forward. -/
def Advances (size namesize : Int) : Prop := 0 < align4 (110 + namesize) + size

instance (size namesize : Int) : Decidable (Advances size namesize) :=
  inferInstanceAs (Decidable (_ < _))

/-- Fields without a minus sign always take the loop forward. -/
theorem advances_of_unsigned {data : Bytes} {offset size namesize : Int}
    (h : sizes data offset = .ok (size, namesize))
    (hsize : '-'.toUInt8 ∉ slice (slice data offset (offset + 110)) 54 62)
    (hname : '-'.toUInt8 ∉ slice (slice data offset (offset + 110)) 94 102) :
    Advances size namesize := by
  obtain ⟨_, _, h⟩ := bind_ok h
  obtain ⟨size', hsize', h⟩ := bind_ok h
  obtain ⟨namesize', hname', h⟩ := bind_ok h
  cases h
  have hsizeNonneg := int16_nonneg hsize (orRaise_ok hsize')
  have hnameNonneg := int16_nonneg hname (orRaise_ok hname')
  rw [Advances, align4]
  omega

theorem advances_iff {offset : Int} (size namesize : Int) (h : ∃ k, offset = 4 * k) :
    offset < align4 (align4 (offset + 110 + namesize) + size) ↔ Advances size namesize := by
  obtain ⟨k, rfl⟩ := h
  have hstart : align4 (4 * k + 110 + namesize) = 4 * k + align4 (110 + namesize) := by
    simp only [align4]
    omega
  obtain ⟨j, hj, hle, hlt⟩ := align4_eq (4 * k + align4 (110 + namesize) + size)
  rw [hstart, hj, Advances]
  omega

/-- The loop of `user_elf` ends, going forward at each turn, exactly when no
header that it goes on from holds numbers that take it back or keep it in
place. -/
theorem user_elf_progress_iff (variant : Text) (bits : Nat) (data : Bytes) :
    ((∃ visited result, Loop.Ends (turn variant bits data) start visited result) ∧
      ∀ s s', Loop.Reaches (turn variant bits data) start s →
        turn variant bits data s = .ok (.inl s') → s.offset < s'.offset) ↔
      ∀ s s' size namesize, Loop.Reaches (turn variant bits data) start s →
        turn variant bits data s = .ok (.inl s') → sizes data s.offset = .ok (size, namesize) →
          Advances size namesize := by
  have hforward : ∀ s s' size namesize, Loop.Reaches (turn variant bits data) start s →
      turn variant bits data s = .ok (.inl s') → sizes data s.offset = .ok (size, namesize) →
        (s.offset < s'.offset ↔ Advances size namesize) := by
    intro s s' size namesize hs hon hsizes
    obtain ⟨_, size', namesize', hsizes', hnext⟩ := turn_on hon
    cases hsizes.symm.trans hsizes'
    rw [hnext, advances_iff size namesize (reaches_aligned hs)]
  constructor
  · rintro ⟨_, hstep⟩ s s' size namesize hs hon hsizes
    exact (hforward s s' size namesize hs hon hsizes).mp (hstep s s' hs hon)
  · intro hsound
    have hstep : ∀ s s', Loop.Reaches (turn variant bits data) start s →
        turn variant bits data s = .ok (.inl s') → s.offset < s'.offset := by
      intro s s' hs hon
      obtain ⟨_, size, namesize, hsizes, _⟩ := turn_on hon
      exact (hforward s s' size namesize hs hon hsizes).mpr
        (hsound s s' size namesize hs hon hsizes)
    refine ⟨?_, hstep⟩
    -- what is left of the data behind the offset gets shorter
    apply Loop.ends_of_measure fun s => ((data.length : Int) - s.offset).toNat
    intro s s' hs hon
    have := hstep s s' hs hon
    have := (turn_on hon).1
    omega

/-- One header whose size takes the offset back to the header itself. -/
def stuckArchive : Bytes :=
  ascii "070701" ++ List.replicate 48 '0'.toUInt8 ++ ascii "-0000070" ++
    List.replicate 32 '0'.toUInt8 ++ ascii "00000001" ++ ascii "00000000"

theorem user_elf_stuck :
    turn (text "tiny_shell") 32 stuckArchive start = .ok (.inl start) ∧
      ¬ ∃ visited result, Loop.Ends (turn (text "tiny_shell") 32 stuckArchive) start visited result := by
  have hturn : turn (text "tiny_shell") 32 stuckArchive start = .ok (.inl start) := by
    decide +kernel
  refine ⟨hturn, ?_⟩
  rintro ⟨visited, result, hends⟩
  exact Loop.not_ends_of_stuck hturn hends

end LinuxBuild.UserElf
