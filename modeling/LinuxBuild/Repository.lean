import LinuxBuild.Bytes
import LinuxBuild.Digest
import LinuxBuild.Fragment

/-!
# The repository and its presets

Paths are below the root. `release_common.py` and the packagers list the files
a package is built from.
-/

namespace LinuxBuild.Repository

abbrev Path := List Text

inductive Node where
  | file (content : Bytes)
  | dir
  deriving DecidableEq

abbrev Tree := List (Path × Node)

def Tree.file? (t : Tree) (p : Path) : Option Bytes :=
  match t.lookup p with
  | some (.file content) => some content
  | _ => none

def Tree.isFile (t : Tree) (p : Path) : Bool := (t.file? p).isSome

/-- The entries of a directory, if there is one. -/
def Tree.children (t : Tree) (d : Path) : List Path :=
  (t.map (·.1)).filter fun p => p != [] && p.dropLast == d

def Tree.iterdir (t : Tree) (d : Path) : Option (List Path) :=
  if t.lookup d = some .dir then some (t.children d) else none

/-- `[p for p in d.rglob('*') if p.is_file()]`. -/
def Tree.filesBelow (t : Tree) (d : Path) : List Path :=
  (t.map (·.1)).filter fun p => d.isPrefixOf p && p != d && t.isFile p

def fileName (p : Path) : Text := p.getLast?.getD []

/-- `d.glob('*' + ending)`. -/
def Tree.glob (t : Tree) (d : Path) (ending : Text) : List Path :=
  (t.children d).filter fun p => Python.endswith (fileName p) ending

/-- `path.suffix`: from the last dot, unless the name starts or ends with it. -/
def suffix (name : Text) : Text :=
  let ext := (name.reverse.takeWhile (· ≠ '.')).reverse
  if ext ≠ [] ∧ ext.length + 1 < name.length then '.' :: ext else []

def stem (p : Path) : Text :=
  let name := fileName p
  name.take (name.length - (suffix name).length)

def sorted (paths : List Path) : List Path := paths.mergeSort fun a b => decide (a ≤ b)

/-! ## Presets -/

/-- What the release tools read of a preset. -/
structure Preset where
  arch : Text
  kernelVersion : Text
  rootfsType : Option Text
  hasBuildroot : Bool
  deriving DecidableEq

inductive Variant where
  | tinyShell
  | buildroot
  | alpine
  | debian
  deriving DecidableEq

def Variant.name : Variant → Text
  | .tinyShell => text "tiny_shell"
  | .buildroot => text "buildroot"
  | .alpine => text "alpine"
  | .debian => text "debian"

def Variant.isDistro : Variant → Bool
  | .alpine | .debian => true
  | .tinyShell | .buildroot => false

def variants (cfg : Preset) : List Variant :=
  if cfg.rootfsType = some (text "alpine") then [.alpine]
  else if cfg.rootfsType = some (text "debian") then [.debian]
  else .tinyShell :: if cfg.hasBuildroot then [.buildroot] else []

/-- `arch.removeprefix('riscv')`. -/
def archBits (cfg : Preset) : Text :=
  if Python.startswith cfg.arch (text "riscv") then cfg.arch.drop 5 else cfg.arch

def packageName (preset : Path) (cfg : Preset) (variant : Variant) : Text :=
  (if variant = .tinyShell ∨ variant.isDistro = true then text "linux-riscv-" ++ stem preset
   else text "linux-riscv-rv" ++ archBits cfg ++ text "-" ++ stem preset ++ text "-buildroot") ++
    text "-v" ++ cfg.kernelVersion

/-- A package of the matrix. -/
structure Package where
  preset : Path
  cfg : Preset
  variant : Variant
  name : Text
  deriving DecidableEq

def configs : Path := [text "configs"]

/-- `matrix()`; `toml` is `tomllib.loads` of a file. -/
def matrix (toml : Bytes → Option Preset) (t : Tree) : Option (List Package) := do
  let rows ← (sorted (t.glob configs (text ".toml"))).mapM fun p => do
    let cfg ← toml (← t.file? p)
    return (variants cfg).map fun variant => ⟨p, cfg, variant, packageName p cfg variant⟩
  return rows.flatten

/-! ## Build inputs -/

def script (name : String) : Path := [text "scripts", text name]

def makefile : Path := [text "Makefile"]
def payload : Path := [text "payload"]
def rootfsDistro : Path := [text "rootfs", text "distro"]
def rootfsOverlay : Path := [text "rootfs", text "overlay"]

/-- `source_files` of `package-artifacts.py`. -/
def artifactFiles (t : Tree) (preset : Path) : Option (List Path) := do
  let payload ← t.iterdir payload
  return [makefile, script "gen-config.py", script "buildroot.mk", script "prepare-opensbi.py",
      script "package-artifacts.py", script "ensure-rootfs.py", script "prepare-linux.py", preset] ++
    payload.filter (fun p => suffix (fileName p) = text ".c" ∨ suffix (fileName p) = text ".h" ∨
      fileName p = text "Makefile") ++
    [[text "rootfs", text "busybox.fragment"]] ++ t.filesBelow rootfsOverlay

/-- The files of `distro_inputs`. -/
def distroFiles (t : Tree) (preset : Path) : Option (List Path) := do
  let distro ← t.iterdir rootfsDistro
  return [makefile, preset, script "distro.mk", script "gen-config.py", script "build-distro.py",
      script "package-distro.py", script "release_common.py", script "prepare-linux.py"] ++
    distro.filter t.isFile

def sourceFiles (t : Tree) (variant : Variant) (preset : Path) : Option (List Path) :=
  if variant.isDistro then distroFiles t preset else artifactFiles t preset

abbrev InputMap := List (Path × Hash)

variable (sha : Digest Bytes)

def hashFiles (t : Tree) (files : List Path) : Option InputMap :=
  files.mapM fun p => do return (p, sha.hash (← t.file? p))

/-- The `build_inputs` the packager of the variant computes. -/
def buildInputs (t : Tree) (variant : Variant) (preset : Path) : Option InputMap := do
  hashFiles sha t (← sourceFiles t variant preset)

def SameMap (a b : InputMap) : Prop := ∀ p, a.lookup p = b.lookup p

/-! ## Listing again -/

theorem mem_children {t : Tree} {d p : Path} :
    p ∈ t.children d ↔ (∃ node, (p, node) ∈ t) ∧ p ≠ [] ∧ p.dropLast = d := by
  simp [Tree.children]

theorem mem_of_file? {t : Tree} {p : Path} {content : Bytes} (h : t.file? p = some content) :
    ∃ node, (p, node) ∈ t := by
  unfold Tree.file? at h
  split at h
  · rename_i hlookup
    exact ⟨_, Python.mem_of_lookup hlookup⟩
  · cases h

theorem iterdir_eq {t : Tree} {d : Path} {entries : List Path} (h : t.iterdir d = some entries) :
    entries = t.children d := by
  unfold Tree.iterdir at h
  split at h
  · exact (Option.some.inj h).symm
  · cases h

/-- A listed file that is still there is listed again. -/
theorem sourceFiles_keeps {before now : Tree} {variant : Variant} {preset p : Path}
    {old new : List Path} {content : Bytes} (hold : sourceFiles before variant preset = some old)
    (hnew : sourceFiles now variant preset = some new) (hp : p ∈ old)
    (hfile : now.file? p = some content) : p ∈ new := by
  have hthere := mem_of_file? hfile
  have hisFile : now.isFile p = true := by simp [Tree.isFile, hfile]
  have hchild : ∀ d, p ∈ before.children d → p ∈ now.children d := fun d h =>
    mem_children.mpr ⟨hthere, (mem_children.mp h).2⟩
  have hbelow : ∀ d, p ∈ before.filesBelow d → p ∈ now.filesBelow d := by
    intro d h
    obtain ⟨node, hmem⟩ := hthere
    simp only [Tree.filesBelow, List.mem_filter, Bool.and_eq_true] at h ⊢
    exact ⟨List.mem_map.mpr ⟨_, hmem, rfl⟩, h.2.1, hisFile⟩
  unfold sourceFiles at hold hnew
  split at hold
  · rename_i hdistro
    rw [if_pos hdistro] at hnew
    obtain ⟨d₁, h₁, hold⟩ := Option.bind_eq_some_iff.mp hold
    obtain ⟨d₂, h₂, hnew⟩ := Option.bind_eq_some_iff.mp hnew
    cases hold
    cases hnew
    rw [iterdir_eq h₁, List.mem_append, List.mem_filter] at hp
    rw [iterdir_eq h₂, List.mem_append, List.mem_filter]
    exact hp.imp_right fun h => ⟨hchild _ h.1, hisFile⟩
  · rename_i hdistro
    rw [if_neg hdistro] at hnew
    obtain ⟨d₁, h₁, hold⟩ := Option.bind_eq_some_iff.mp hold
    obtain ⟨d₂, h₂, hnew⟩ := Option.bind_eq_some_iff.mp hnew
    cases hold
    cases hnew
    rw [iterdir_eq h₁] at hp
    rw [iterdir_eq h₂]
    simp only [List.mem_append] at hp ⊢
    refine hp.imp (fun h => h.imp_left fun h => h.imp_right fun h => ?_) (hbelow _)
    rw [List.mem_filter] at h ⊢
    exact ⟨hchild _ h.1, h.2⟩

theorem hashFiles_cons {t : Tree} {q : Path} {files : List Path} {now : InputMap}
    (h : hashFiles sha t (q :: files) = some now) :
    ∃ content rest, t.file? q = some content ∧ hashFiles sha t files = some rest ∧
      now = (q, sha.hash content) :: rest := by
  rw [hashFiles, List.mapM_cons] at h
  obtain ⟨head, hhead, h⟩ := Option.bind_eq_some_iff.mp h
  obtain ⟨rest, hrest, h⟩ := Option.bind_eq_some_iff.mp h
  obtain ⟨content, hcontent, hhead⟩ := Option.bind_eq_some_iff.mp hhead
  cases hhead
  cases h
  exact ⟨content, rest, hcontent, hrest, rfl⟩

theorem hashFiles_lookup {t : Tree} {files : List Path} {now : InputMap}
    (h : hashFiles sha t files = some now) (p : Path) :
    now.lookup p = if p ∈ files then (t.file? p).map sha.hash else none := by
  induction files generalizing now with
  | nil =>
    cases h
    rfl
  | cons q files ih =>
    obtain ⟨content, rest, hcontent, hrest, rfl⟩ := hashFiles_cons sha h
    by_cases hq : p = q
    · subst hq
      simp [hcontent]
    · have hne : (p == q) = false := beq_eq_false_iff_ne.mpr hq
      simp [List.lookup_cons, hne, ih hrest, hq]

theorem hashFiles_mem {t : Tree} {files : List Path} {now : InputMap} {p : Path}
    (h : hashFiles sha t files = some now) (hp : p ∈ files) :
    ∃ content, t.file? p = some content ∧ now.lookup p = some (sha.hash content) := by
  have hfile : ∃ content, t.file? p = some content := by
    induction files generalizing now with
    | nil => cases hp
    | cons q files ih =>
      obtain ⟨content, rest, hcontent, hrest, rfl⟩ := hashFiles_cons sha h
      rcases List.mem_cons.mp hp with rfl | hp
      · exact ⟨content, hcontent⟩
      · exact ih hrest hp
  obtain ⟨content, hcontent⟩ := hfile
  exact ⟨content, hcontent, by rw [hashFiles_lookup sha h, if_pos hp, hcontent]; rfl⟩

/-- Every row has the hash of the file it names. -/
theorem hashFiles_rows {t : Tree} {files : List Path} {now : InputMap}
    (h : hashFiles sha t files = some now) :
    ∀ row ∈ now, (t.file? row.1).map sha.hash = some row.2 := by
  induction files generalizing now with
  | nil =>
    cases h
    simp
  | cons q files ih =>
    obtain ⟨content, rest, hcontent, hrest, rfl⟩ := hashFiles_cons sha h
    simp only [List.forall_mem_cons, hcontent, Option.map_some, true_and]
    exact ih hrest

theorem hashFiles_isSome {t : Tree} {files : List Path} (h : ∀ p ∈ files, t.isFile p = true) :
    ∃ now, hashFiles sha t files = some now := by
  induction files with
  | nil => exact ⟨[], rfl⟩
  | cons q files ih =>
    simp only [List.forall_mem_cons] at h
    obtain ⟨content, hcontent⟩ := Option.isSome_iff_exists.mp h.1
    obtain ⟨rest, hrest⟩ := ih h.2
    refine ⟨(q, sha.hash content) :: rest, ?_⟩
    rw [hashFiles] at hrest ⊢
    rw [List.mapM_cons, hcontent, hrest]
    rfl

end LinuxBuild.Repository
