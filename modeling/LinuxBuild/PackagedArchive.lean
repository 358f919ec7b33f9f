import Mathlib.Data.List.Nodup
import LinuxBuild.Audit
import LinuxBuild.Publish

/-!
# The archive of a package, extracted

What `archive.add` puts into the archive is what the loop of `extract_and_audit`
finds in it, and the manifest lists it.
-/

namespace LinuxBuild.PackagedArchive

open Extract Python Packages Audit Repository
open Toml (Value)
open Publish (archiveName)

def toStr (t : Text) : Str := t.map Char.toNat

theorem toStr_injective : Function.Injective toStr :=
  List.map_injective_iff.mpr fun _ _ h => Char.toNat_inj.mp h

/-! ## Names -/

theorem anchor_plain {name : Str} (h : slash ∉ name) : anchor name = [] := by
  cases name with
  | nil => rfl
  | cons c name =>
    have hc : c ≠ slash := fun heq => h (heq ▸ List.mem_cons_self)
    simp [anchor, hc]

theorem splitOnP_plain {name : Str} (h : slash ∉ name) : name.splitOnP (· == slash) = [name] := by
  apply List.splitOnP_eq_singleton
  intro c hc
  simp only [beq_eq_false_iff_ne]
  rintro rfl
  exact h hc

theorem parts_child {name : Str} (h : IsChild name) : parts name = [name] := by
  simp [parts, components, anchor_plain h.noSlash, splitOnP_plain h.noSlash, h.nonempty, h.notHere]

theorem parts_below {root name : Str} (hroot : IsChild root) (h : IsChild name) :
    parts (root ++ slash :: name) = [root, name] := by
  have hanchor : anchor (root ++ slash :: name) = [] := by
    obtain ⟨c, rest, rfl⟩ := List.exists_cons_of_ne_nil hroot.nonempty
    have hc : c ≠ slash := fun heq => hroot.noSlash (heq ▸ List.mem_cons_self)
    simp [anchor, hc]
  have hsplit : (root ++ slash :: name).splitOnP (· == slash) = [root, name] := by
    rw [List.splitOnP_append_cons _ _ (by simp)]
    · rw [splitOnP_plain h.noSlash, splitOnP_plain hroot.noSlash]
      rfl
  simp [parts, components, hanchor, hsplit, hroot.nonempty, hroot.notHere, h.nonempty, h.notHere]

theorem rootOf_archiveName (name : Text) : rootOf (toStr (archiveName name)) = toStr name := by
  have happend : toStr (archiveName name) = toStr name ++ str ".tar.gz" := List.map_append
  rw [rootOf, happend, if_pos (by simp)]
  have hlength : (str ".tar.gz").length = 7 := by decide
  rw [List.length_append, hlength, Nat.add_sub_cancel, List.take_left]

/-! ## The archive -/

/-- The directory of a package with its manifest in it. -/
def contents (p : Staged) (manifest : Bytes) : List (Text × Bytes) :=
  p.files ++ [(text "manifest.json", manifest)]

def fileMember (name : Text) (file : Text × Bytes) : Member :=
  ⟨toStr (name ++ '/' :: file.1), .regular, file.2, true⟩

/-- `archive.add(stage, arcname=a.name)`, read again. -/
def archived (p : Staged) (manifest : Bytes) : Tar where
  members := ⟨toStr p.name, .directory, [], true⟩ ::
    ((contents p manifest).mergeSort fun a b => decide (a.1 ≤ b.1)).map (fileMember p.name)
  intact := true

/-! ## The loop over it -/

section

variable {sha256 : Bytes → Str} {creatable : Str → Bool} {name : Text}

theorem extractMember_file {x : Extraction} {file : Text × Bytes} (hname : IsChild (toStr name))
    (hfile : IsChild (toStr file.1)) (hcreatable : creatable (toStr file.1) = true)
    (hx : x.hashes.map (·.1) = x.dir.map (·.1)) (hnew : toStr file.1 ∉ x.dir.map (·.1)) :
    extractMember sha256 creatable (toStr name) x (fileMember name file) =
      (⟨x.dir ++ [(toStr file.1, .file file.2)], x.hashes ++ [(toStr file.1, sha256 file.2)],
        x.touched ++ [.created (toStr file.1)]⟩, none) := by
  have hparts : parts (fileMember name file).name = [toStr name, toStr file.1] := by
    have happend : toStr (name ++ '/' :: file.1) = toStr name ++ slash :: toStr file.1 :=
      List.map_append
    rw [fileMember, happend, parts_below hname hfile]
  have hopen : openWrite creatable x.dir (toStr file.1) = .ok (.created (toStr file.1)) := by
    rw [openWrite, if_neg hfile.notAbove, if_neg hfile.noNul, lookup_eq_none hnew]
    simp [hcreatable]
  rw [extractMember, if_neg (by simp [fileMember]), hparts]
  simp only [fileMember, ne_eq, not_true, false_or, hx, if_neg hnew, hopen, write, if_true]

theorem extractFrom_files (hname : IsChild (toStr name)) {files : List (Text × Bytes)}
    (hfiles : ∀ file ∈ files, IsChild (toStr file.1) ∧ creatable (toStr file.1) = true)
    {x : Extraction} (hx : x.hashes.map (·.1) = x.dir.map (·.1))
    (hnew : (x.dir.map (·.1) ++ files.map fun file => toStr file.1).Nodup) :
    ∃ touched, extractFrom sha256 creatable (toStr name) x (files.map (fileMember name)) =
      (⟨x.dir ++ files.map fun file => (toStr file.1, .file file.2),
        x.hashes ++ files.map fun file => (toStr file.1, sha256 file.2), touched⟩, none) := by
  induction files generalizing x with
  | nil => exact ⟨x.touched, by simp [extractFrom]⟩
  | cons file files ih =>
    obtain ⟨hchild, hcreatable⟩ := hfiles file List.mem_cons_self
    have hfresh : toStr file.1 ∉ x.dir.map (·.1) := by
      intro hmem
      exact (List.nodup_append.mp hnew).2.2 _ hmem _ List.mem_cons_self rfl
    rw [List.map_cons, extractFrom, extractMember_file hname hchild hcreatable hx hfresh]
    dsimp only
    have hrest := fun file hfile => hfiles file (List.mem_cons_of_mem _ hfile)
    obtain ⟨touched, h⟩ := ih hrest
      (x := ⟨x.dir ++ [(toStr file.1, .file file.2)], x.hashes ++ [(toStr file.1, sha256 file.2)],
        x.touched ++ [.created (toStr file.1)]⟩) (by simp [hx]) (by simpa using hnew)
    exact ⟨touched, by simp [h]⟩

/-- The files of a package and its manifest have names of their own. -/
structure Separate (files : List (Text × Bytes)) : Prop where
  children : ∀ file ∈ files, IsChild (toStr file.1)
  distinct : (files.map (·.1)).Nodup

theorem separate_of_sublist {files : List (Text × Bytes)} {names : List Text}
    (hsub : (files.map (·.1)).Sublist names) (hdistinct : names.Nodup)
    (hchildren : ∀ name ∈ names, IsChild (toStr name)) : Separate files where
  children _ hfile := hchildren _ (hsub.subset (List.mem_map_of_mem hfile))
  distinct := hsub.nodup hdistinct

def isChild (name : Str) : Bool :=
  !name.isEmpty && name != str "." && name != str ".." && !name.contains slash && !name.contains 0

theorem isChild_of {name : Str} (h : isChild name = true) : IsChild name := by
  simp only [isChild, Bool.and_eq_true, Bool.not_eq_true', List.isEmpty_eq_false_iff, bne_iff_ne,
    List.contains_eq_mem, decide_eq_false_iff_not] at h
  obtain ⟨⟨⟨⟨hne, hhere⟩, habove⟩, hslash⟩, hnul⟩ := h
  exact ⟨hne, hhere, habove, hslash, hnul⟩

theorem children_of_all {names : List Text} (h : (names.all fun name => isChild (toStr name)) = true) :
    ∀ name ∈ names, IsChild (toStr name) :=
  fun name hname => isChild_of (List.all_eq_true.mp h name hname)

theorem extract_archived {p : Staged} {manifest : Bytes} (hname : IsChild (toStr p.name))
    (hfiles : Separate (contents p manifest))
    (hcreatable : ∀ file ∈ contents p manifest, creatable (toStr file.1) = true) :
    ∃ (files : List (Text × Bytes)) (touched : List Touched), files.Perm (contents p manifest) ∧
      extract sha256 creatable (toStr p.name) (archived p manifest) =
        (⟨files.map fun file => (toStr file.1, .file file.2),
          files.map fun file => (toStr file.1, sha256 file.2), touched⟩, none) := by
  have hperm := List.mergeSort_perm (contents p manifest) fun a b => decide (a.1 ≤ b.1)
  generalize hsorted : (contents p manifest).mergeSort (fun a b => decide (a.1 ≤ b.1)) = files at hperm
  have hdistinct : (files.map fun file => toStr file.1).Nodup := by
    have hnames := (hperm.map (·.1)).nodup_iff.mpr hfiles.distinct
    have hstrs := List.Nodup.map toStr_injective hnames
    rwa [List.map_map] at hstrs
  obtain ⟨touched, h⟩ := @extractFrom_files sha256 creatable _ hname files
    (fun file hfile => ⟨hfiles.children file (hperm.mem_iff.mp hfile),
      hcreatable file (hperm.mem_iff.mp hfile)⟩) fresh rfl (by simpa [fresh] using hdistinct)
  refine ⟨files, touched, hperm, ?_⟩
  rw [extract, archived, hsorted, extractFrom, extractMember, if_pos ⟨rfl, parts_child hname⟩]
  dsimp only
  rw [h]
  simp [fresh]

end

/-! ## The manifest -/

/-- What `json.loads` makes of a file. -/
def jsonOf (tools : Tools) (file : Bytes) : Option Json :=
  ((Utf8.decodeStrict file).map universalNewlines).bind tools.loads

mutual

/-- What `json.loads` has of what `json.dumps` made of a value. Dates are refused. -/
def ofValue : Value → Option Json
  | .string s => some (.string (toStr s))
  | .integer n => some (.number (.finite n))
  | .float x => some (.number x)
  | .boolean b => some (.bool b)
  | .moment _ => none
  | .array items => (ofValues items).map .array
  | .table rows => (ofRows rows).map .object

def ofValues : List Value → Option (List Json)
  | [] => some []
  | v :: items => do return (← ofValue v) :: (← ofValues items)

def ofRows : List (Text × Value) → Option (List (Str × Json))
  | [] => some []
  | (key, v) :: rows => do return (toStr key, ← ofValue v) :: (← ofRows rows)

end

def integer (n : Int) : Json := .number (.finite n)

def layoutRows (l : Layout) : List (Str × Json) :=
  [(str "kernel_address", .string (toStr l.kernelAddress)),
   (str "kernel_memory_end", .string (toStr l.kernelMemoryEnd)),
   (str "kernel_memory_size", integer l.kernelMemorySize),
   (str "payload_kernel_offset", integer l.payloadKernelOffset),
   (str "fdt_offset", integer l.fdtOffset), (str "fdt_address", .string (toStr l.fdtAddress))]

def pathText (p : Path) : Text := Python.join ['/'] p

/-- The manifest as `json.loads` reads it, if it could be written. -/
def document (m : Manifest) : Option Json := do
  let version ← ofValue m.kernelVersion
  let memory ← ofValue m.memoryMib
  return .object
    ([(str "schema", integer m.schema), (str "preset", .string (toStr m.preset)),
      (str "variant", .string (toStr m.variant.name)), (str "bits", integer m.bits),
      (str "kernel_version", version), (str "kernel_hz", integer m.kernelHz),
      (str "memory_mib", memory), (str "opensbi_isa", .string (toStr m.opensbiIsa)),
      (str "abi", .string (toStr m.abi)),
      (str "build_inputs", .object (m.buildInputs.map fun row =>
        (toStr (pathText row.1), .string row.2))),
      (str "source_commit", .string (toStr m.sourceCommit)),
      (str "opensbi_commit", .string (toStr m.opensbiCommit)),
      (str "created", .number (.finite m.created)), (str "board_tested", .bool m.boardTested),
      (str "files", .object (m.files.map fun row => (toStr row.1, .string row.2)))] ++
      (m.layout.map layoutRows).getD [])

theorem readJson_eq_ok {tools : Tools} {dir : Dir} {name : Str} {file : Bytes} {v : Json}
    (h : dir.lookup name = some (.file file)) :
    readJson tools dir name = .ok v ↔ jsonOf tools file = some v := by
  simp only [readJson, readText, readBytes, h, bind_eq_ok, orRaise_eq_ok, Except.ok.injEq, jsonOf,
    Option.bind_eq_some_iff, exists_eq_left']

/-! ## What the reader accepts -/

/-- The files of a package as a directory. -/
structure Extracted (dir : Dir) (files : List (Text × Bytes)) : Prop where
  there : ∀ file ∈ files, dir.lookup (toStr file.1) = some (.file file.2)
  nothing : ∀ name, name ∉ files.map (·.1) → dir.lookup (toStr name) = none

theorem extracted_of_perm {files whole : List (Text × Bytes)} (hperm : files.Perm whole)
    (hdistinct : (whole.map (·.1)).Nodup) :
    Extracted (files.map fun file => (toStr file.1, .file file.2)) whole := by
  constructor
  · intro file hfile
    apply lookup_of_unique
    · exact List.mem_map_of_mem (hperm.mem_iff.mpr hfile)
    · intro node hnode
      obtain ⟨other, hother, heq⟩ := List.mem_map.mp hnode
      obtain ⟨hname, rfl⟩ := Prod.mk.inj heq
      have hsame := List.inj_on_of_nodup_map hdistinct (hperm.mem_iff.mp hother) hfile
        (toStr_injective hname)
      rw [hsame]
  · intro name hname
    apply lookup_eq_none
    rw [List.map_map]
    intro hmem
    obtain ⟨file, hfile, heq⟩ := List.mem_map.mp hmem
    apply hname
    rw [← toStr_injective heq]
    exact List.mem_map_of_mem (hperm.mem_iff.mp hfile)

section

variable {tools : Tools} {dir : Dir}

theorem Extracted.readBytes {files : List (Text × Bytes)} (h : Extracted dir files) {name : Text}
    {file : Bytes} (hfile : (name, file) ∈ files) : Audit.readBytes dir (toStr name) = .ok file := by
  rw [Audit.readBytes, h.there _ hfile]

/-- A file is read exactly when it was packed. -/
theorem Extracted.readJson_iff {files : List (Text × Bytes)} (h : Extracted dir files) {name : Text}
    {v : Json} : readJson tools dir (toStr name) = .ok v ↔
      ∃ file, (name, file) ∈ files ∧ jsonOf tools file = some v := by
  constructor
  · intro hread
    by_cases hname : name ∈ files.map (·.1)
    · obtain ⟨⟨n, file⟩, hfile, rfl⟩ := List.mem_map.mp hname
      exact ⟨file, hfile, (readJson_eq_ok (h.there _ hfile)).mp hread⟩
    · rw [readJson, readText, Audit.readBytes, h.nothing name hname] at hread
      cases hread
  · rintro ⟨file, hfile, hjson⟩
    exact (readJson_eq_ok (h.there _ hfile)).mpr hjson

end

theorem mem_fileHashes {sha : Digest Bytes} {files : List (Text × Bytes)} {row : Text × Hash} :
    row ∈ fileHashes sha files ↔ ∃ file ∈ files, row = (file.1, sha.hash file.2) := by
  simp only [fileHashes, List.mem_map, (List.mergeSort_perm _ _).mem_iff, eq_comm]

/-- The manifest lists each file with its digest. -/
theorem dictGet_listed {sha : Digest Bytes} {files : List (Text × Bytes)}
    (hdistinct : (files.map (·.1)).Nodup) {file : Text × Bytes} (hfile : file ∈ files) :
    dictGet ((fileHashes sha files).map fun row => (toStr row.1, Json.string row.2))
      (toStr file.1) = some (.string (sha.hash file.2)) := by
  apply lookup_of_unique
  · rw [List.mem_reverse]
    exact List.mem_map.mpr ⟨_, mem_fileHashes.mpr ⟨file, hfile, rfl⟩, rfl⟩
  · intro v hv
    obtain ⟨row, hrow, heq⟩ := List.mem_map.mp (List.mem_reverse.mp hv)
    obtain ⟨other, hother, rfl⟩ := mem_fileHashes.mp hrow
    obtain ⟨hsame, rfl⟩ := Prod.mk.inj heq
    rw [List.inj_on_of_nodup_map hdistinct hother hfile (toStr_injective hsame)]

theorem sameFiles_listed {sha : Digest Bytes} {files staged : List (Text × Bytes)} {manifest : Bytes}
    (hperm : files.Perm (staged ++ [(text "manifest.json", manifest)]))
    (hdistinct : ((staged ++ [(text "manifest.json", manifest)]).map (·.1)).Nodup) :
    sameFiles (files.map fun file => (toStr file.1, sha.hash file.2))
      (.object ((fileHashes sha staged).map fun row => (toStr row.1, .string row.2))) = true := by
  have hmanifest : ∀ file ∈ files, toStr file.1 ≠ manifestName → file ∈ staged := by
    intro file hfile hname
    obtain hstaged | heq := List.mem_append.mp (hperm.mem_iff.mp hfile)
    · exact hstaged
    · rw [List.mem_singleton.mp heq] at hname
      exact absurd rfl hname
  have hstaged : ∀ file ∈ staged, file ∈ files ∧ toStr file.1 ≠ manifestName := by
    intro file hfile
    refine ⟨hperm.mem_iff.mpr (List.mem_append_left _ hfile), fun heq => ?_⟩
    rw [List.map_append, List.nodup_append] at hdistinct
    exact hdistinct.2.2 _ (List.mem_map_of_mem hfile) _ List.mem_cons_self
      (toStr_injective (heq : toStr file.1 = toStr (text "manifest.json")))
  have hstagedNodup : (staged.map (·.1)).Nodup := by
    rw [List.map_append, List.nodup_append] at hdistinct
    exact hdistinct.1
  rw [sameFiles, Bool.and_eq_true, List.all_eq_true, List.all_eq_true]
  constructor
  · intro hash hhash
    obtain ⟨hmem, hname⟩ := List.mem_filter.mp hhash
    obtain ⟨file, hfile, rfl⟩ := List.mem_map.mp hmem
    have hin := hmanifest file hfile (of_decide_eq_true hname)
    rw [dictGet_listed hstagedNodup hin]
    simp [Json.isStr]
  · intro row hrow
    obtain ⟨listed, hlisted, rfl⟩ := List.mem_map.mp hrow
    obtain ⟨file, hfile, rfl⟩ := mem_fileHashes.mp hlisted
    obtain ⟨hin, hname⟩ := hstaged file hfile
    rw [List.any_eq_true]
    exact ⟨_, List.mem_filter.mpr ⟨List.mem_map_of_mem hin, by simpa using hname⟩, by simp⟩

theorem document_files {m : Manifest} {doc : Json} (h : document m = some doc) :
    doc.item (str "files") =
      .ok (.object (m.files.map fun row => (toStr row.1, .string row.2))) := by
  rw [document] at h
  obtain ⟨version, _, h⟩ := Option.bind_eq_some_iff.mp h
  obtain ⟨memory, _, h⟩ := Option.bind_eq_some_iff.mp h
  cases h
  cases m.layout <;> rfl

/-- The manifest has the digest of each file of the package. -/
theorem listed_item {sha : Digest Bytes} {p : Staged} {manifest : Bytes} {doc : Json}
    (hfiles : Separate (contents p manifest)) (hlisted : p.manifest.files = fileHashes sha p.files)
    (hdoc : document p.manifest = some doc) {file : Text × Bytes} (hfile : file ∈ p.files) :
    ∃ files, doc.item (str "files") = .ok files ∧
      files.item (toStr file.1) = .ok (.string (sha.hash file.2)) := by
  have hdistinct := hfiles.distinct
  rw [contents, List.map_append, List.nodup_append] at hdistinct
  refine ⟨_, document_files hdoc, ?_⟩
  rw [hlisted, Json.item, dictGet_listed hdistinct.1 hfile]
  rfl

/-- The archive of a package on the way from one program to the other: SHA-256 is
one function, the names are names of files, and the manifest that was dumped is
loaded again. -/
structure Written (tools : Tools) (sha : Digest Bytes) (p : Staged) (manifest : Bytes)
    (doc : Json) : Prop where
  digest : tools.sha256 = sha.hash
  name : IsChild (toStr p.name)
  creatable : ∀ file ∈ contents p manifest, tools.creatable (toStr file.1) = true
  dumped : document p.manifest = some doc
  loaded : jsonOf tools manifest = some doc

/-- A package that was archived is extracted as it was, and its manifest agrees
with it. -/
theorem extractAndAudit_archived {tools : Tools} {sha : Digest Bytes} {p : Staged} {manifest : Bytes}
    {doc : Json} (fuel : Nat) (hwritten : Written tools sha p manifest doc)
    (hfiles : Separate (contents p manifest)) (hlisted : p.manifest.files = fileHashes sha p.files) :
    ∃ dir, Extracted dir (contents p manifest) ∧
      (extractAndAudit tools fuel (toStr (archiveName p.name)) (archived p manifest)).2 =
        audit tools fuel dir doc := by
  obtain ⟨files, touched, hperm, hextract⟩ :=
    extract_archived hwritten.name hfiles hwritten.creatable
  have hextracted := extracted_of_perm hperm hfiles.distinct
  have hread : readManifest tools ⟨files.map fun file => (toStr file.1, .file file.2),
      files.map fun file => (toStr file.1, tools.sha256 file.2), touched⟩ = .ok doc := by
    have hthere := hextracted.there _ (List.mem_append_right _ List.mem_cons_self)
    have hsame := @sameFiles_listed sha _ _ _ hperm hfiles.distinct
    rw [← hlisted] at hsame
    have hmanifest : readJson tools (files.map fun file => (toStr file.1, .file file.2))
        manifestName = .ok doc := (readJson_eq_ok hthere).mpr hwritten.loaded
    simp only [readManifest, hmanifest, bind_eq_ok, Except.ok.injEq, exists_eq_left',
      document_files hwritten.dumped, hwritten.digest, require_eq_ok, hsame, exists_const,
      pure, Except.pure, true_and]
  refine ⟨_, hextracted, ?_⟩
  rw [extractAndAudit, rootOf_archiveName, hextract]
  simp only [hread]

end LinuxBuild.PackagedArchive
