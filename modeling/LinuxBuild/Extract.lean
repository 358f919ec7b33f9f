import Mathlib.Data.List.Forall2
import LinuxBuild.UserElf

/-!
# The extraction loop of `extract_and_audit`

A member of the archive becomes a file only under the name of a direct child of
the destination. A `str` may hold lone surrogates, as names that are no UTF-8
do, so strings are lists of code points here.
-/

namespace LinuxBuild.Extract

abbrev Str := List Nat

def str (s : String) : Str := s.toList.map Char.toNat

/-! ## Paths -/

def slash : Nat := 0x2f

/-- The root of a path. Two leading slashes are a root of their own. -/
def anchor (name : Str) : List Str :=
  match (name.takeWhile (· = slash)).length with
  | 0 => []
  | 2 => [[slash, slash]]
  | _ => [[slash]]

/-- The components behind the root. -/
def components (name : Str) : List Str :=
  (name.splitOnP (· == slash)).filter fun part => part ≠ [] ∧ part ≠ str "."

/-- `Path(name).parts`. -/
def parts (name : Str) : List Str := anchor name ++ components name

/-- The name of an entry of a directory. -/
structure IsChild (name : Str) : Prop where
  nonempty : name ≠ []
  notHere : name ≠ str "."
  notAbove : name ≠ str ".."
  noSlash : slash ∉ name
  noNul : 0 ∉ name

/-! ## Files -/

inductive Kind where
  | regular
  | directory
  | hardLink
  | symbolicLink
  | characterDevice
  | blockDevice
  | fifo
  | other
  deriving DecidableEq, Repr

/-- A member of a tar stream; `whole` says that its content can be read to the
end. -/
structure Member where
  name : Str
  kind : Kind
  content : Bytes
  whole : Bool

/-- The members in order, and whether the stream ends after them or breaks. -/
structure Tar where
  members : List Member
  intact : Bool

inductive Raised where
  | value (message : Str)
  | os
  | tar
  | key
  | type
  | attribute
  | decode
  | json
  | struct
  | index
  | gzip
  | process
  | elf (raised : UserElf.Raised)
  deriving DecidableEq, Repr

inductive Node where
  | file (content : Bytes)
  | link (target : Str)
  | directory
  deriving DecidableEq, Repr

abbrev Dir := List (Str × Node)

/-- What opening a file for writing came to. -/
inductive Touched where
  | created (name : Str)
  | truncated (name : Str)
  | followed (target : Str)
  deriving DecidableEq, Repr

/-- `(destination / name).open('wb')`; what the system refuses for other reasons
is up to `creatable`. -/
def openWrite (creatable : Str → Bool) (dir : Dir) (name : Str) : Except Raised Touched :=
  if name = str ".." then .error .os
  else if 0 ∈ name then .error (.value (str "embedded null byte"))
  else
    match dir.lookup name with
    | none => if creatable name then .ok (.created name) else .error .os
    | some (.file _) => .ok (.truncated name)
    | some (.link target) => .ok (.followed target)
    | some .directory => .error .os

def write (dir : Dir) (content : Bytes) : Touched → Dir
  | .created name => dir ++ [(name, .file content)]
  | .truncated name => dir.map fun row => if row.1 = name then (name, .file content) else row
  | .followed _ => dir

/-! ## The loop -/

structure Extraction where
  dir : Dir
  hashes : List (Str × Str)
  touched : List Touched

/-- The destination is a fresh temporary directory. -/
def fresh : Extraction := ⟨[], [], []⟩

section

variable (sha256 : Bytes → Str) (creatable : Str → Bool) (root : Str)

def extractMember (x : Extraction) (m : Member) : Extraction × Option Raised :=
  let unexpected := Raised.value (str "unexpected archive member: " ++ m.name)
  if m.kind = .directory ∧ parts m.name = [root] then (x, none)
  else
    match parts m.name with
    | [top, name] =>
      if m.kind ≠ .regular ∨ top ≠ root ∨ name ∈ x.hashes.map (·.1) then (x, some unexpected)
      else
        match openWrite creatable x.dir name with
        | .error e => (x, some e)
        | .ok touched =>
          let dir := write x.dir m.content touched
          if m.whole then
            (⟨dir, x.hashes ++ [(name, sha256 m.content)], x.touched ++ [touched]⟩, none)
          else (⟨dir, x.hashes, x.touched ++ [touched]⟩, some .tar)
    | _ => (x, some unexpected)

def extractFrom (x : Extraction) : List Member → Extraction × Option Raised
  | [] => (x, none)
  | m :: members =>
    match extractMember sha256 creatable root x m with
    | (x, some e) => (x, some e)
    | (x, none) => extractFrom x members

/-- The directory that the loop leaves, and what it raised, if anything. -/
def extract (tar : Tar) : Extraction × Option Raised :=
  match extractFrom sha256 creatable root fresh tar.members with
  | (x, some e) => (x, some e)
  | (x, none) => (x, if tar.intact then none else some .tar)

end

/-! ## What it leaves -/

theorem anchor_length (name : Str) : (anchor name).length ≤ 1 := by
  rw [anchor]
  split
  · exact Nat.zero_le _
  · exact Nat.le_refl _
  · exact Nat.le_refl _

/-- The last of two parts is no root. -/
theorem mem_components {name top last : Str} (h : parts name = [top, last]) :
    last ∈ components name := by
  have hanchor := anchor_length name
  rw [parts] at h
  cases ha : anchor name with
  | nil =>
    rw [ha, List.nil_append] at h
    rw [h]
    simp
  | cons first rest =>
    rw [ha] at h hanchor
    obtain rfl : rest = [] := List.length_eq_zero_iff.mp (by simpa using hanchor)
    rw [List.singleton_append, List.cons.injEq] at h
    rw [h.2]
    simp

theorem isChild_of_opened {creatable : Str → Bool} {dir : Dir} {path top name : Str}
    {touched : Touched} (hparts : parts path = [top, name]) (h : openWrite creatable dir name = .ok touched) :
    IsChild name := by
  have hmem := mem_components hparts
  rw [components, List.mem_filter] at hmem
  obtain ⟨hpiece, hplain⟩ := hmem
  obtain ⟨hne, hdot⟩ := of_decide_eq_true hplain
  rw [openWrite] at h
  split at h
  · cases h
  rename_i habove
  split at h
  · cases h
  rename_i hnul
  refine ⟨hne, hdot, habove, ?_, hnul⟩
  intro hmem
  have := (Bytes.mem_splitOnP hpiece hmem).1
  simp at this

/-- A directory into which only direct children were put, each a regular file and
each once. -/
structure Clean (x : Extraction) : Prop where
  regular : ∀ row ∈ x.dir, ∃ content, row.2 = .file content
  children : ∀ row ∈ x.dir, IsChild row.1
  once : (x.dir.map (·.1)).Nodup
  created : x.touched = x.dir.map fun row => .created row.1

/-- Every file of the directory has its digest in the table. -/
def Recorded (sha256 : Bytes → Str) (x : Extraction) : Prop :=
  List.Forall₂ (fun row hash => ∃ content, row = (hash.1, .file content) ∧ hash.2 = sha256 content)
    x.dir x.hashes

theorem clean_fresh : Clean fresh :=
  ⟨by simp [fresh], by simp [fresh], by simp [fresh], rfl⟩

theorem Recorded.names {sha256 : Bytes → Str} {x : Extraction} (h : Recorded sha256 x) :
    x.hashes.map (·.1) = x.dir.map (·.1) := by
  obtain ⟨dir, hashes, touched⟩ := x
  simp only [Recorded] at h ⊢
  induction h with
  | nil => rfl
  | cons hrow _ ih =>
    obtain ⟨content, rfl, _⟩ := hrow
    rw [List.map_cons, List.map_cons, ih]

theorem Recorded.digest {sha256 : Bytes → Str} {x : Extraction} (h : Recorded sha256 x) {name : Str}
    {content : Bytes} (hmem : (name, .file content) ∈ x.dir) : (name, sha256 content) ∈ x.hashes := by
  obtain ⟨dir, hashes, touched⟩ := x
  simp only [Recorded] at h hmem ⊢
  induction h with
  | nil => cases hmem
  | @cons row hash rows _ hrow _ ih =>
    obtain ⟨n, digest⟩ := hash
    obtain ⟨content', rfl, rfl⟩ := hrow
    obtain heq | hmem := List.mem_cons.mp hmem
    · cases heq
      exact List.mem_cons_self
    · exact List.mem_cons_of_mem _ (ih hmem)

theorem lookup_eq_none {dir : Dir} {name : Str} (h : name ∉ dir.map (·.1)) :
    dir.lookup name = none := by
  rw [List.lookup_eq_none_iff]
  intro row hrow
  rw [bne_iff_ne]
  rintro rfl
  exact h (List.mem_map_of_mem hrow)

/-- A file that comes to a clean directory under a new name. -/
theorem Clean.create {x : Extraction} {name : Str} (content : Bytes) (hashes : List (Str × Str))
    (h : Clean x) (hchild : IsChild name) (hnew : name ∉ x.dir.map (·.1)) :
    Clean ⟨x.dir ++ [(name, .file content)], hashes, x.touched ++ [.created name]⟩ := by
  refine ⟨?_, ?_, ?_, ?_⟩
  · intro row hrow
    obtain hrow | hrow := List.mem_append.mp hrow
    · exact h.regular row hrow
    · rw [List.mem_singleton.mp hrow]
      exact ⟨content, rfl⟩
  · intro row hrow
    obtain hrow | hrow := List.mem_append.mp hrow
    · exact h.children row hrow
    · rw [List.mem_singleton.mp hrow]
      exact hchild
  · rw [List.map_append, List.map_singleton, List.nodup_append]
    refine ⟨h.once, by simp, ?_⟩
    intro a ha b hb
    rw [List.mem_singleton.mp hb]
    rintro rfl
    exact hnew ha
  · rw [List.map_append, h.created]
    rfl

section

variable {sha256 : Bytes → Str} {creatable : Str → Bool} {root : Str}

/-- One member: nothing happens, or one new regular file, and its digest if it
could be read. -/
theorem extractMember_keeps {x x' : Extraction} {m : Member} {e : Option Raised}
    (h : extractMember sha256 creatable root x m = (x', e)) (hclean : Clean x)
    (hrecorded : Recorded sha256 x) : Clean x' ∧ (e = none → Recorded sha256 x') := by
  rw [extractMember] at h
  split at h
  · cases h
    exact ⟨hclean, fun _ => hrecorded⟩
  · split at h
    · rename_i top name hparts
      split at h
      · cases h
        exact ⟨hclean, fun h => by cases h⟩
      · rename_i hexpected
        simp only [not_or] at hexpected
        have hnew : name ∉ x.dir.map (·.1) := hrecorded.names ▸ hexpected.2.2
        split at h
        · cases h
          exact ⟨hclean, fun h => by cases h⟩
        · rename_i touched hopen
          have hchild := isChild_of_opened hparts hopen
          obtain rfl : touched = .created name := by
            rw [openWrite, if_neg hchild.notAbove, if_neg hchild.noNul, lookup_eq_none hnew] at hopen
            dsimp only at hopen
            split at hopen
            · cases hopen
              rfl
            · cases hopen
          split at h
          · cases h
            refine ⟨hclean.create m.content _ hchild hnew, fun _ => ?_⟩
            exact List.rel_append hrecorded (.cons ⟨m.content, rfl, rfl⟩ .nil)
          · cases h
            exact ⟨hclean.create m.content _ hchild hnew, fun h => by cases h⟩
    · cases h
      exact ⟨hclean, fun h => by cases h⟩

theorem extractFrom_keeps {x x' : Extraction} {members : List Member} {e : Option Raised}
    (h : extractFrom sha256 creatable root x members = (x', e)) (hclean : Clean x)
    (hrecorded : Recorded sha256 x) : Clean x' ∧ (e = none → Recorded sha256 x') := by
  induction members generalizing x with
  | nil =>
    cases h
    exact ⟨hclean, fun _ => hrecorded⟩
  | cons m members ih =>
    rw [extractFrom] at h
    split at h
    · rename_i y e' hm
      cases h
      exact ⟨(extractMember_keeps hm hclean hrecorded).1, fun h => by cases h⟩
    · rename_i y hm
      obtain ⟨hclean, hrecorded⟩ := extractMember_keeps hm hclean hrecorded
      exact ih h hclean (hrecorded rfl)

/-- Whatever the members are, and wherever the loop ends. -/
theorem extract_keeps {tar : Tar} {x : Extraction} {e : Option Raised}
    (h : extract sha256 creatable root tar = (x, e)) :
    Clean x ∧ (e = none → Recorded sha256 x) := by
  rw [extract] at h
  split at h
  · rename_i y e' hm
    cases h
    exact ⟨(extractFrom_keeps hm clean_fresh .nil).1, fun h => by cases h⟩
  · rename_i y hm
    cases h
    obtain ⟨hclean, hrecorded⟩ := extractFrom_keeps hm clean_fresh .nil
    exact ⟨hclean, fun _ => hrecorded rfl⟩

end

end LinuxBuild.Extract
