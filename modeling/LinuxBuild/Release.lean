import Mathlib.Algebra.GroupWithZero.Nat
import LinuxBuild.Console
import LinuxBuild.Repository

/-!
# `scripts/check-release.py`

The release directory holds archives, test results and the earlier record. A
file that is parsed stands with what its reader makes of it.
-/

namespace LinuxBuild.Release

open Repository

structure Document (α : Type) where
  bytes : Bytes
  value : α

structure Manifest where
  preset : Text
  bits : Nat
  variant : Text
  kernelVersion : Text
  kernelHz : Nat
  memoryMib : Nat
  buildInputs : InputMap

/-- A row of `boots`: the checks that are `True`, the capabilities that hold,
how many networking commands there are, and the times of the commands. -/
structure BootRow where
  mode : Text
  pass : Bool
  checks : List Text
  capabilities : List Text
  networkExec : Nat
  childProcesses : Option Nat
  sleepWallSeconds : Option Rat
  commands : List (Text × Rat)
  uartSha256 : Hash

structure ResultRow where
  archive : Text
  pass : Bool
  archiveSha256 : Hash
  memoryMib : Nat
  boots : List BootRow

structure TestResults where
  pass : Bool
  runnerSha256 : Option Hash
  dependencies : List (Text × Hash)
  results : List ResultRow

structure Record where
  schema : Nat
  ready : Bool
  packageCount : Nat
  bootPaths : Nat
  boardTested : Bool
  published : Bool
  archives : List (Text × Hash)
  testResultsSha256 : Hash
  sourceFiles : List (Path × Hash)

/-- `release-ready.json`, with the digest of the notes it also has. -/
structure Readiness where
  record : Record
  notesSha256 : Hash

/-- The release directory; `archives` are its `*.tar.gz`, `logs` the files of
`log_dir`. -/
structure Dist where
  archives : List (Text × Document Manifest)
  tests : Document TestResults
  logs : List (Text × Bytes)
  sums : Option (List (Hash × Text))
  notes : Option Bytes
  ready : Option Readiness

inductive Refusal where
  | archiveSet
  | testsFailed
  | testRunner
  | testDependencies
  | coverage
  | archiveChanged (name : Text)
  | manifest (name : Text)
  | memory (name : Text)
  | presetChanged (name : Text)
  | buildInput (name : Text) (path : Path)
  | bootPaths (name : Text)
  | bootFailed (name : Text)
  | distroAcceptance (name : Text)
  | networkExec (name : Text)
  | bootLog (name : Text)
  | kernelVersion (name : Text)
  | runtimeBaseline (name : Text)
  | networkBaseline (name : Text)
  | functional (name : Text)
  | sleep (name : Text)
  | checksums
  | notes
  | stale
  | raised

open Python (require orRaise require_ok orRaise_ok dictItems dictEq dictGet setEq)

variable (toml : Bytes → Option Preset) (sha : Digest Bytes)

/-- `sha(root / path)`. -/
def fileSha (t : Tree) (p : Path) : Except Refusal Hash := do
  return sha.hash (← orRaise (t.file? p) .raised)

def archiveName (package : Package) : Text := package.name ++ text ".tar.gz"

/-- The items of `expected`. -/
def expected (t : Tree) : Option (List (Text × Package)) := do
  return dictItems ((← matrix toml t).map fun package => (archiveName package, package))

/-- `CHECKS` and `PERSISTENCE`. -/
def distroChecks (mode : Text) : List Text :=
  if mode = text "disk" then
    [text "memory_1g", text "kernel_version", text "runtime_mounts", text "dns", text "https",
     text "package_install", text "package_execution", text "ssh_key_login", text "clean_reboot"]
  else
    [text "memory_1g", text "kernel_version", text "runtime_mounts", text "new_boot_id",
     text "file_persistence", text "package_persistence", text "ssh_key_persistence",
     text "clean_reboot"]

def modes : Variant → List Text
  | .alpine | .debian => [text "disk", text "persistence"]
  | .buildroot => [text "split", text "payload", text "shell"]
  | .tinyShell => [text "split", text "payload"]

def capabilityNames : List Text :=
  [text "proc_cpuinfo", text "sysfs", text "devtmpfs", text "devpts",
   text "tinysh_command_baseline", text "filesystem_operations"]

/-- One turn of `for b in boots`. -/
def checkBoot (dist : Dist) (name : Text) (package : Package) (m : Manifest) (b : BootRow) :
    Except Refusal Unit := do
  let variant := package.variant
  require b.pass (.bootFailed name)
  if variant.isDistro then
    require ((distroChecks b.mode).all b.checks.contains) (.distroAcceptance name)
  if b.mode = text "split" ∧ variant = .tinyShell then
    require (b.networkExec = 3) (.networkExec name)
  let log ← orRaise (dist.logs.lookup (package.name ++ text "-" ++ b.mode ++ text ".log")) .raised
  require (sha.hash log = b.uartSha256) (.bootLog name)
  require
    (Console.contains (text "Linux version " ++ m.kernelVersion ++ text " ")
      (Python.universalNewlines (Utf8.decode log)))
    (.kernelVersion name)
  if (b.mode = text "payload" ∨ b.mode = text "shell") ∧ variant = .buildroot then
    require (capabilityNames.all b.capabilities.contains) (.runtimeBaseline name)
    require (b.networkExec = 4) (.networkBaseline name)
  if b.mode = text "payload" ∧ variant = .buildroot then
    let children ← orRaise b.childProcesses .raised
    require (children = 100 && b.sleepWallSeconds.any (89 ≤ ·)) (.functional name)
  if b.mode = text "payload" ∧ variant = .tinyShell then
    require (b.commands.any fun c => c.1 = text "sleep 2" && 9 / 5 ≤ c.2) (.sleep name)

/-- `for path, h in m['build_inputs'].items()`. -/
def checkInputs (t : Tree) (name : Text) : InputMap → Except Refusal Unit
  | [] => return
  | (path, h) :: rest => do
    let current ← fileSha sha t path
    require (current = h) (.buildInput name path)
    checkInputs t name rest

def checkBoots (dist : Dist) (name : Text) (package : Package) (m : Manifest) :
    List BootRow → Except Refusal Unit
  | [] => return
  | b :: rest => do
    checkBoot sha dist name package m b
    checkBoots dist name package m rest

/-- One turn of `for name, ... in expected.items()`: the digest of the archive. -/
def checkArchive (t : Tree) (dist : Dist) (name : Text) (package : Package) :
    Except Refusal (Text × Hash) := do
  let archive ← orRaise (dist.archives.lookup name) .raised
  let digest := sha.hash archive.bytes
  let rows := dist.tests.value.results.map fun r => (r.archive, r)
  let result ← orRaise (dictGet rows name) .raised
  require (result.pass && result.archiveSha256 = digest) (.archiveChanged name)
  let m := archive.value
  let bits ← orRaise (Python.int (archBits package.cfg)) .raised
  require (m.preset = stem package.preset && m.bits = bits && m.variant = package.variant.name &&
    m.kernelVersion = package.cfg.kernelVersion && m.kernelHz = 100) (.manifest name)
  require (m.memoryMib = result.memoryMib && result.memoryMib = 1024) (.memory name)
  let presetSha ← fileSha sha t package.preset
  require (m.buildInputs.lookup package.preset = some presetSha) (.presetChanged name)
  checkInputs sha t name m.buildInputs
  require (result.boots.length = (modes package.variant).length &&
    setEq (result.boots.map BootRow.mode) (modes package.variant)) (.bootPaths name)
  checkBoots sha dist name package m result.boots
  return (name, digest)

def checkArchives (t : Tree) (dist : Dist) :
    List (Text × Package) → Except Refusal (List (Text × Hash))
  | [] => return []
  | (name, package) :: rest => do
    let row ← checkArchive sha t dist name package
    return row :: (← checkArchives t dist rest)

/-- The files of `source`. -/
def sourceRecord (t : Tree) : Except Refusal (List (Path × Hash)) := do
  let distro ← orRaise (t.iterdir rootfsDistro) .raised
  let files := t.glob [text "scripts"] (text ".py") ++
    [[text "README.md"], makefile, script "buildroot.mk", script "distro.mk"] ++ distro ++
    t.glob configs (text ".toml") ++ t.glob [text "docs"] (text ".md")
  orRaise (hashFiles sha t files) .raised

def main (write : Bool) (t : Tree) (dist : Dist) : Except Refusal Record := do
  let packages ← orRaise (expected toml t) .raised
  require (setEq (packages.map (·.1)) (dist.archives.map (·.1))) .archiveSet
  let tests := dist.tests.value
  require tests.pass .testsFailed
  let runner ← fileSha sha t (script "test-packages.py")
  require (tests.runnerSha256 = some runner) .testRunner
  let runtime ← fileSha sha t (script "distro_runtime.py")
  let common ← fileSha sha t (script "release_common.py")
  require (dictEq tests.dependencies
    [(text "distro_runtime.py", runtime), (text "release_common.py", common)]) .testDependencies
  let rows := tests.results
  require (rows.length = packages.length &&
    setEq (rows.map ResultRow.archive) (packages.map (·.1))) .coverage
  let archives ← checkArchives sha t dist packages
  let source ← sourceRecord sha t
  let record : Record :=
    { schema := 1, ready := true, packageCount := archives.length,
      bootPaths := (rows.map fun r => r.boots.length).sum, boardTested := false,
      published := false, archives := archives, testResultsSha256 := sha.hash dist.tests.bytes,
      sourceFiles := source }
  if write then return record
  else
    let previous ← orRaise dist.ready .raised
    let sums := (archives.mergeSort fun a b => decide (a.1 ≤ b.1)).map fun row => (row.2, row.1)
    require (dist.sums = some sums) .checksums
    let notes ← orRaise dist.notes .raised
    require (previous.notesSha256 = sha.hash notes) .notes
    require (previous.record.schema = 1 && previous.record.ready &&
      previous.record.packageCount = record.packageCount &&
      previous.record.bootPaths = record.bootPaths && !previous.record.boardTested &&
      !previous.record.published && dictEq previous.record.archives archives &&
      previous.record.testResultsSha256 = record.testResultsSha256 &&
      dictEq previous.record.sourceFiles source) .stale
    return record

/-! ## What acceptance says of the inputs -/

theorem fileSha_ok {t : Tree} {p : Path} {h : Hash} (hsha : fileSha sha t p = .ok h) :
    ∃ content, t.file? p = some content ∧ sha.hash content = h := by
  obtain ⟨content, hcontent, hhash⟩ := Python.bind_ok hsha
  cases hhash
  exact ⟨content, orRaise_ok hcontent, rfl⟩

theorem checkInputs_ok {t : Tree} {name : Text} {inputs : InputMap}
    (h : checkInputs sha t name inputs = .ok ()) :
    ∀ row ∈ inputs, ∃ content, t.file? row.1 = some content ∧ sha.hash content = row.2 := by
  induction inputs with
  | nil => simp
  | cons row inputs ih =>
    obtain ⟨current, hcurrent, h⟩ := Python.bind_ok h
    obtain ⟨_, hrequire, h⟩ := Python.bind_ok h
    have heq := of_decide_eq_true (require_ok hrequire)
    simp only [List.forall_mem_cons]
    exact ⟨heq ▸ fileSha_ok sha hcurrent, ih h⟩

theorem checkArchive_inputs {t : Tree} {dist : Dist} {name : Text} {package : Package}
    {row : Text × Hash} (h : checkArchive sha t dist name package = .ok row) :
    ∃ archive, dist.archives.lookup name = some archive ∧
      checkInputs sha t name archive.value.buildInputs = .ok () := by
  obtain ⟨archive, harchive, h⟩ := Python.bind_ok h
  obtain ⟨result, _, h⟩ := Python.bind_ok h
  obtain ⟨_, _, h⟩ := Python.bind_ok h
  obtain ⟨bits, _, h⟩ := Python.bind_ok h
  obtain ⟨_, _, h⟩ := Python.bind_ok h
  obtain ⟨_, _, h⟩ := Python.bind_ok h
  obtain ⟨presetSha, _, h⟩ := Python.bind_ok h
  obtain ⟨_, _, h⟩ := Python.bind_ok h
  obtain ⟨_, hinputs, h⟩ := Python.bind_ok h
  exact ⟨archive, orRaise_ok harchive, hinputs⟩

theorem checkArchives_ok {t : Tree} {dist : Dist} {packages : List (Text × Package)}
    {archives : List (Text × Hash)} (h : checkArchives sha t dist packages = .ok archives) :
    ∀ item ∈ packages, ∃ row, checkArchive sha t dist item.1 item.2 = .ok row := by
  induction packages generalizing archives with
  | nil => simp
  | cons item packages ih =>
    obtain ⟨row, hrow, h⟩ := Python.bind_ok h
    obtain ⟨rest, hrest, h⟩ := Python.bind_ok h
    simp only [List.forall_mem_cons]
    exact ⟨⟨row, hrow⟩, ih hrest⟩

theorem main_archives {write : Bool} {t : Tree} {dist : Dist} {record : Record}
    (h : main toml sha write t dist = .ok record) :
    ∃ packages, expected toml t = some packages ∧
      ∀ item ∈ packages, ∃ row, checkArchive sha t dist item.1 item.2 = .ok row := by
  obtain ⟨packages, hpackages, h⟩ := Python.bind_ok h
  obtain ⟨_, _, h⟩ := Python.bind_ok h
  obtain ⟨_, _, h⟩ := Python.bind_ok h
  obtain ⟨runner, _, h⟩ := Python.bind_ok h
  obtain ⟨_, _, h⟩ := Python.bind_ok h
  obtain ⟨runtime, _, h⟩ := Python.bind_ok h
  obtain ⟨common, _, h⟩ := Python.bind_ok h
  obtain ⟨_, _, h⟩ := Python.bind_ok h
  obtain ⟨_, _, h⟩ := Python.bind_ok h
  obtain ⟨archives, harchives, h⟩ := Python.bind_ok h
  exact ⟨packages, orRaise_ok hpackages, checkArchives_ok sha harchives⟩

/-! ## Currentness -/

/-- A repository and a release directory, with the state of the repository each
archive was built from: its manifest has the inputs of that state. -/
structure Candidate where
  tree : Tree
  dist : Dist
  builtFrom : Text → Tree
  recorded : ∀ packages, expected toml tree = some packages → ∀ item ∈ packages,
    ∀ archive, dist.archives.lookup item.1 = some archive →
      ∃ built, buildInputs sha (builtFrom item.1) item.2.variant item.2.preset = some built ∧
        SameMap archive.value.buildInputs built

variable {toml sha}

def Candidate.Accepted (c : Candidate toml sha) (write : Bool) : Prop :=
  ∃ record, main toml sha write c.tree c.dist = .ok record

/-- The packager would compute the recorded inputs from the current tree. -/
def Candidate.InputsCurrent (c : Candidate toml sha) : Prop :=
  ∀ packages, expected toml c.tree = some packages → ∀ item ∈ packages,
    ∀ archive, c.dist.archives.lookup item.1 = some archive →
      ∃ now, buildInputs sha c.tree item.2.variant item.2.preset = some now ∧
        SameMap archive.value.buildInputs now

/-- The packager would find its directories, and in them no file that it did
not find when the package was built. -/
def Candidate.NothingAdded (c : Candidate toml sha) : Prop :=
  ∀ packages, expected toml c.tree = some packages → ∀ item ∈ packages,
    ∃ new, sourceFiles c.tree item.2.variant item.2.preset = some new ∧
      ∀ old, sourceFiles (c.builtFrom item.1) item.2.variant item.2.preset = some old → new ⊆ old

theorem inputs_current_iff {before now : Tree} {variant : Variant} {preset : Path}
    {recorded built : InputMap} (hbuilt : buildInputs sha before variant preset = some built)
    (hsame : SameMap recorded built)
    (hchecked : ∀ row ∈ recorded, ∃ content, now.file? row.1 = some content ∧
      sha.hash content = row.2) :
    (∃ current, buildInputs sha now variant preset = some current ∧ SameMap recorded current) ↔
      ∃ new, sourceFiles now variant preset = some new ∧
        ∀ old, sourceFiles before variant preset = some old → new ⊆ old := by
  obtain ⟨old, hold, hbuilt⟩ := Option.bind_eq_some_iff.mp hbuilt
  have hkeys : ∀ p, (recorded.lookup p).isSome = true → p ∈ old := by
    intro p hp
    rw [hsame, hashFiles_lookup sha hbuilt] at hp
    split at hp
    · assumption
    · cases hp
  have hthere : ∀ p ∈ old, ∃ h, recorded.lookup p = some h := by
    intro p hp
    obtain ⟨content, _, hh⟩ := hashFiles_mem sha hbuilt hp
    exact ⟨_, by rw [hsame, hh]⟩
  constructor
  · rintro ⟨current, hcurrent, hequal⟩
    obtain ⟨new, hnew, hcurrent⟩ := Option.bind_eq_some_iff.mp hcurrent
    refine ⟨new, hnew, fun old' hold' p hp => ?_⟩
    cases hold.symm.trans hold'
    obtain ⟨content, _, hh⟩ := hashFiles_mem sha hcurrent hp
    exact hkeys p (by rw [hequal, hh]; rfl)
  · rintro ⟨new, hnew, hsub⟩
    have hin := hsub old hold
    have hfile : ∀ p ∈ old, ∃ content, now.file? p = some content ∧
        recorded.lookup p = some (sha.hash content) := by
      intro p hp
      obtain ⟨h, hh⟩ := hthere p hp
      obtain ⟨content, hcontent, hhash⟩ := hchecked _ (Python.mem_of_lookup hh)
      exact ⟨content, hcontent, by rw [hh, hhash]⟩
    obtain ⟨current, hcurrent⟩ := hashFiles_isSome sha (t := now) (by
      intro p hp
      obtain ⟨content, hcontent, _⟩ := hfile p (hin hp)
      simp [Tree.isFile, hcontent])
    refine ⟨current, Option.bind_eq_some_iff.mpr ⟨new, hnew, hcurrent⟩, fun p => ?_⟩
    rw [hashFiles_lookup sha hcurrent]
    by_cases hp : p ∈ new
    · obtain ⟨content, hcontent, hrecorded⟩ := hfile p (hin hp)
      rw [if_pos hp, hcontent, hrecorded]
      rfl
    · rw [if_neg hp]
      cases hrec : recorded.lookup p with
      | none => rfl
      | some h =>
        have hpold := hkeys p (by rw [hrec]; rfl)
        obtain ⟨content, hcontent, _⟩ := hfile p hpold
        exact absurd (sourceFiles_keeps hold hnew hpold hcontent) hp

/-- For an accepted candidate the recorded inputs are the current ones exactly
when no file was added: the gate looks at the recorded files only. -/
theorem accepted_inputs_current_iff (c : Candidate toml sha) (write : Bool)
    (h : c.Accepted write) : c.InputsCurrent ↔ c.NothingAdded := by
  obtain ⟨record, h⟩ := h
  obtain ⟨packages, hpackages, harchives⟩ := main_archives toml sha h
  have hiff : ∀ item ∈ packages, ∃ archive, c.dist.archives.lookup item.1 = some archive ∧
      ((∃ now, buildInputs sha c.tree item.2.variant item.2.preset = some now ∧
        SameMap archive.value.buildInputs now) ↔
      ∃ new, sourceFiles c.tree item.2.variant item.2.preset = some new ∧
        ∀ old, sourceFiles (c.builtFrom item.1) item.2.variant item.2.preset = some old →
          new ⊆ old) := by
    intro item hitem
    obtain ⟨row, hrow⟩ := harchives item hitem
    obtain ⟨archive, harchive, hinputs⟩ := checkArchive_inputs sha hrow
    obtain ⟨built, hbuilt, hsame⟩ := c.recorded packages hpackages item hitem archive harchive
    exact ⟨archive, harchive,
      inputs_current_iff hbuilt hsame (checkInputs_ok sha hinputs)⟩
  constructor
  · intro hcurrent packages' hpackages' item hitem
    cases hpackages.symm.trans hpackages'
    obtain ⟨archive, harchive, hitemIff⟩ := hiff item hitem
    exact hitemIff.mp (hcurrent packages hpackages item hitem archive harchive)
  · intro hadded packages' hpackages' item hitem archive harchive
    cases hpackages.symm.trans hpackages'
    obtain ⟨archive', harchive', hitemIff⟩ := hiff item hitem
    cases harchive.symm.trans harchive'
    exact hitemIff.mpr (hadded packages hpackages item hitem)

/-! ## A release of one preset -/

def presetText : Bytes :=
  ascii "[target]\narch = \"riscv32\"\n[kernel]\nversion = \"6.18.51\"\n"

def onePreset (content : Bytes) : Option Preset :=
  if content = presetText then some ⟨text "riscv32", text "6.18.51", none, false⟩ else none

def plainSha : Digest Bytes := .verbatim _ Digest.bytes_injective

def presetPath : Path := [text "configs", text "qemu-rv32.toml"]

def builtTree : Tree :=
  [(payload, .dir), (rootfsDistro, .dir), (presetPath, .file presetText),
   (payload ++ [text "tiny.h"], .file (ascii "#define"))] ++
  ([[text "README.md"], makefile, script "gen-config.py", script "buildroot.mk",
    script "prepare-opensbi.py", script "package-artifacts.py", script "ensure-rootfs.py",
    script "prepare-linux.py", script "test-packages.py", script "distro_runtime.py",
    script "release_common.py", script "distro.mk",
    [text "rootfs", text "busybox.fragment"]].map fun p => (p, .file []))

/-- The tree after a file was added to the overlay. -/
def laterTree : Tree :=
  (rootfsOverlay ++ [text "etc", text "issue"], .file (ascii "Linux")) :: builtTree

def onePackage : Package :=
  ⟨presetPath, ⟨text "riscv32", text "6.18.51", none, false⟩, .tinyShell,
    text "linux-riscv-qemu-rv32-v6.18.51"⟩

def bootLog : Bytes := ascii "Linux version 6.18.51 (gcc)\n"

def onePassed (mode : Text) : BootRow where
  mode := mode
  pass := true
  checks := []
  capabilities := []
  networkExec := 3
  childProcesses := none
  sleepWallSeconds := none
  commands := [(text "sleep 2", 2)]
  uartSha256 := plainSha.hash bootLog

def oneArchive : Document Manifest where
  bytes := ascii "archive"
  value :=
    { preset := text "qemu-rv32", bits := 32, variant := text "tiny_shell",
      kernelVersion := text "6.18.51", kernelHz := 100, memoryMib := 1024,
      buildInputs := (buildInputs plainSha builtTree .tinyShell presetPath).getD [] }

def oneResult : ResultRow where
  archive := archiveName onePackage
  pass := true
  archiveSha256 := plainSha.hash oneArchive.bytes
  memoryMib := 1024
  boots := [onePassed (text "split"), onePassed (text "payload")]

def oneTests : TestResults where
  pass := true
  runnerSha256 := some (plainSha.hash [])
  dependencies :=
    [(text "distro_runtime.py", plainSha.hash []), (text "release_common.py", plainSha.hash [])]
  results := [oneResult]

def oneDist : Dist where
  archives := [(archiveName onePackage, oneArchive)]
  tests := ⟨ascii "results", oneTests⟩
  logs := [(onePackage.name ++ text "-split.log", bootLog),
    (onePackage.name ++ text "-payload.log", bootLog)]
  sums := none
  notes := none
  ready := none

theorem oneArchive_recorded :
    buildInputs plainSha builtTree .tinyShell presetPath = some oneArchive.value.buildInputs := by
  decide +kernel

/-- The release, looked at in a state of the repository with the same presets. -/
def oneCandidate (now : Tree)
    (h : expected onePreset now = some [(archiveName onePackage, onePackage)]) :
    Candidate onePreset plainSha where
  tree := now
  dist := oneDist
  builtFrom _ := builtTree
  recorded packages hpackages item hitem archive harchive := by
    cases h.symm.trans hpackages
    cases List.mem_singleton.mp hitem
    have hone : oneDist.archives.lookup (archiveName onePackage) = some oneArchive := by
      simp [oneDist]
    cases hone.symm.trans harchive
    exact ⟨_, oneArchive_recorded, fun _ => rfl⟩

theorem expected_builtTree :
    expected onePreset builtTree = some [(archiveName onePackage, onePackage)] := by
  decide +kernel

theorem expected_laterTree :
    expected onePreset laterTree = some [(archiveName onePackage, onePackage)] := by
  decide +kernel

theorem accepted_of_isSome {c : Candidate toml sha} {write : Bool}
    (h : (main toml sha write c.tree c.dist).toOption.isSome = true) : c.Accepted write := by
  cases hmain : main toml sha write c.tree c.dist with
  | error r => simp [hmain, Except.toOption] at h
  | ok record => exact ⟨record, hmain⟩

theorem accepted_inputs_current_iff_unchanged :
    (oneCandidate builtTree expected_builtTree).InputsCurrent ↔
      (oneCandidate builtTree expected_builtTree).NothingAdded :=
  accepted_inputs_current_iff _ true (accepted_of_isSome (by decide +kernel))

/-- A file added to the overlay is not noticed. -/
theorem release_misses_added_file :
    ¬ ∀ c : Candidate onePreset plainSha, c.Accepted true → c.InputsCurrent := by
  intro h
  have haccepted : (oneCandidate laterTree expected_laterTree).Accepted true :=
    accepted_of_isSome (by decide +kernel)
  obtain ⟨now, hnow, hsame⟩ := h _ haccepted _ expected_laterTree _ (List.mem_singleton_self _)
    oneArchive (by simp [oneCandidate, oneDist])
  have hadded := hsame (rootfsOverlay ++ [text "etc", text "issue"])
  have hlater : ((buildInputs plainSha laterTree .tinyShell presetPath).bind fun now =>
      now.lookup (rootfsOverlay ++ [text "etc", text "issue"])).isSome = true := by
    decide +kernel
  have hnow' : buildInputs plainSha laterTree .tinyShell presetPath = some now := hnow
  rw [hnow', Option.bind_some, ← hadded] at hlater
  revert hlater
  decide +kernel

end LinuxBuild.Release
