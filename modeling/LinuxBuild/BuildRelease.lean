import Mathlib.Data.List.Sort
import LinuxBuild.ArchiveNames
import LinuxBuild.Compose
import LinuxBuild.History
import LinuxBuild.Publish

/-!
# `scripts/build-release.py`

`main`, which builds the packages of the matrix one after another and keeps a
record of it in `build-result.json`. Every `make` it runs ends in a packager
that is given some acts, and a build can stop anywhere.
-/

namespace LinuxBuild.BuildRelease

open Crash Repository Publish

/-! ## The record -/

/-- An entry of `status['packages']`, without its times. -/
structure Item where
  preset : Text
  variant : Text
  archive : Text
  command : Option (List Text) := none
  log : Option Text := none
  returncode : Option Int := none
  reused : Bool := false
  sha256 : Option Hash := none

structure Status where
  expectedPackages : Nat
  buildRoot : Text
  packages : List Item
  pass : Bool

def Status.add (s : Status) (item : Item) : Status := { s with packages := s.packages ++ [item] }

/-- `build-result.json`: a file that is written is empty first. -/
inductive Saved where
  | absent
  | torn
  | whole (status : Status)

/-- `names` has every name in use in the release directory. -/
structure World where
  dist : Dist
  names : List Text
  result : Saved

def World.empty : World := ⟨.empty, [], .absent⟩

def archiveSuffix : Text := text ".tar.gz"

/-- `dist.glob('*.tar.gz')`. -/
def World.archives (w : World) : List Text :=
  w.names.filter fun n => Python.endswith n archiveSuffix && (w.dist.entries n).isSome

/-- What `main` ends with when it does not return 0. -/
inductive Stop where
  | usage
  | raised
  /-- The package that could not be built; the result is 1. -/
  | failed (name : Text)
  /-- The archives that are there and those of the matrix. -/
  | differs (actual expected : List Text)

/-! ## A run -/

/-- A `make` of one package: the packager at its end, unless it fails before
that, and what it returns itself. -/
structure Make where
  packager : Option Publish.Run
  code : Int

/-- A build in a state of the repository. -/
structure Run where
  tree : Tree
  resume : Bool
  jobs : Int
  buildRoot : Text
  dist : Text
  configure : Path → Bool
  make : Path → Variant → Make

section

variable (toml : Bytes → Option Preset) (int : Text → Option Int)

/-- `text.replace(old, new)` for a text that is not empty; the first `skip`
characters belong to an occurrence. -/
def replaceFrom (old new : Text) : Nat → Text → Text
  | _, [] => []
  | skip + 1, _ :: rest => replaceFrom old new skip rest
  | 0, c :: rest =>
    if Python.startswith (c :: rest) old then new ++ replaceFrom old new (old.length - 1) rest
    else c :: replaceFrom old new 0 rest

def removeprefix (whole start : Text) : Text :=
  if Python.startswith whole start then whole.drop start.length else whole

def suffixRanks : List (Text × Nat) :=
  [([], 0), (text "-s", 1), (text "-m", 2), (text "-fast", 3), (text "-latest", 4)]

abbrev Config := Path × Preset

structure Key where
  version : List Int
  arch : Text
  rank : Nat

def order (item : Config) : Option Key := do
  let suffix := removeprefix (stem item.1)
    (text "qemu-" ++ replaceFrom (text "riscv") (text "rv") 0 item.2.arch)
  let version ← (item.2.kernelVersion.splitOn '.').mapM int
  return ⟨version, item.2.arch, (Python.dictGet suffixRanks suffix).getD 5⟩

/-- Keys compare like tuples. -/
def Key.le (a b : Key) : Prop :=
  a.version < b.version ∨ a.version = b.version ∧
    (a.arch < b.arch ∨ a.arch = b.arch ∧ a.rank ≤ b.rank)

instance (a b : Key) : Decidable (a.le b) := inferInstanceAs (Decidable (_ ∨ _ ∧ (_ ∨ _)))

def byKey (a b : Key × Config) : Prop := a.1.le b.1

instance : DecidableRel byKey := fun a b => inferInstanceAs (Decidable (a.1.le b.1))

def readConfig (t : Tree) (p : Path) : Option Config := do
  let cfg ← toml (← t.file? p)
  return (p, cfg)

/-- The presets in the order in which they are built. -/
def plan (t : Tree) : Option (List Config) := do
  let read ← (t.glob configs (text ".toml")).mapM (readConfig toml t)
  let keyed ← read.mapM fun item => do
    let key ← order int item
    return (key, item)
  return (keyed.insertionSort byKey).map (·.2)

variable (readers : Packages.Readers) (sha : Digest Bytes) (tar : Content → Hash)

/-- `save()`. -/
def save (s : Status) : List (World → World) :=
  [fun w => { w with result := .torn }, fun w => { w with result := .whole s }]

def target (variant : Variant) : Text :=
  if variant.isDistro then text "package_distro"
  else if variant = .tinyShell then text "package" else text "package_buildroot"

def command (r : Run) (variant : Variant) : List Text :=
  [text "make", text "NPROC=" ++ text (toString r.jobs), text "BUILD_ROOT=" ++ r.buildRoot,
    text "DIST_DIR=" ++ r.dist, target variant]

/-- The names a packager may take in the release directory. -/
def taken (name : Text) : List Text := [name, Publish.archiveName name, prior]

/-- An act of a packager in the release directory. -/
def work (name : Text) (f : Dist → Dist) (w : World) : World :=
  { w with dist := f w.dist, names := taken name ∪ w.names }

/-- `subprocess.run(cmd)`: a recipe that fails makes `make` fail. -/
def runMake (m : Make) : Prog World Int :=
  let failure : Int := if m.code = 0 then 2 else m.code
  match m.packager with
  | none => .raise failure
  | some packager =>
    match packager.package readers sha with
    | .error _ => .raise failure
    | .ok p =>
      (((publish p).cut .raised packager.stop).embed World.dist (work p.name)).andThen
        (if m.code = 0 then .done else .raise m.code) fun _ => .raise failure

/-- An item as it is first put into the record. -/
def newItem (p : Path) (variant : Variant) (name : Text) : Item where
  preset := stem p
  variant := variant.name
  archive := Publish.archiveName name

/-- The item of a package that is made. -/
def madeItem (r : Run) (p : Path) (variant : Variant) (name : Text) : Item :=
  { newItem p variant name with
    command := some (command r variant)
    log := some (r.dist ++ text "/build-logs/" ++ name ++ text ".log") }

/-- The body of the loop over the variants behind the resume test, with what
follows it. -/
def makePackage (r : Run) (p : Path) (variant : Variant) (name : Text) (s : Status)
    (next : Status → Prog World Stop) : Prog World Stop :=
  let item := madeItem r p variant name
  acts (save (s.add item)) <|
    (runMake readers sha (r.make p variant)).andThen
      (.ask fun w =>
        match w.dist.entries item.archive with
        | some (.archive content) =>
          let s := s.add { item with returncode := some 0, sha256 := some (tar content) }
          acts (save s) (next s)
        | _ => .raise .raised)
      fun code => acts (save (s.add { item with returncode := some code })) (.raise (.failed name))

/-- The body of the loop over the variants. -/
def buildPackage (r : Run) (p : Path) (cfg : Preset) (variant : Variant) (s : Status)
    (next : Status → Prog World Stop) : Prog World Stop :=
  let name := packageName p cfg variant
  let item := newItem p variant name
  if r.resume then
    .ask fun w =>
      match w.dist.entries item.archive, w.dist.manifest? name with
      | some entry, some m =>
        if current sha r.tree m.buildInputs then
          match entry with
          | .archive content =>
            let s := s.add { item with
              returncode := some 0
              reused := true
              sha256 := some (tar content) }
            acts (save s) (next s)
          | .dir _ => .raise .raised
        else makePackage readers sha tar r p variant name s next
      | _, _ => makePackage readers sha tar r p variant name s next
  else makePackage readers sha tar r p variant name s next

def buildVariants (r : Run) (p : Path) (cfg : Preset) :
    List Variant → Status → (Status → Prog World Stop) → Prog World Stop
  | [], s, next => next s
  | variant :: rest, s, next =>
    buildPackage readers sha tar r p cfg variant s fun s => buildVariants r p cfg rest s next

def buildConfigs (r : Run) :
    List Config → Status → (Status → Prog World Stop) → Prog World Stop
  | [], s, next => next s
  | (p, cfg) :: rest, s, next =>
    if (int (archBits cfg)).isNone || !r.configure p then .raise .raised
    else buildVariants readers sha tar r p cfg (variants cfg) s fun s => buildConfigs r rest s next

/-- The comparison with the matrix, and the end. -/
def finish (s : Status) : Prog World Stop :=
  .ask fun w =>
    let expected := s.packages.map (·.archive)
    if Python.setEq w.archives expected then acts (save { s with pass := true }) .done
    else .raise (.differs w.archives expected)

def blank (r : Run) (configs : List Config) : Status where
  expectedPackages := (configs.map fun item => (variants item.2).length).sum
  buildRoot := r.buildRoot
  packages := []
  pass := false

def main (r : Run) : Prog World Stop :=
  if r.jobs < 1 then .raise .usage
  else
    match plan toml int r.tree with
    | none => .raise .raised
    | some configs =>
      let s := blank r configs
      acts (save s) (buildConfigs int readers sha tar r configs s finish)

end

end LinuxBuild.BuildRelease
