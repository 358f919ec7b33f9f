import Mathlib.Data.List.Perm.Basic
import Mathlib.Data.List.Nodup
import LinuxBuild.Release

/-!
# What `check-release.py` accepts

Each check of the gate with the states that pass it, and then the two modes of
the gate beside each other: what `--write` records, a later check compares.
-/

namespace LinuxBuild.Release

open Python Repository

/-! ## The checks -/

def ShowsVersion (m : Manifest) (log : Bytes) : Prop :=
  Console.contains (text "Linux version " ++ m.kernelVersion ++ text " ")
    (universalNewlines (Utf8.decode log)) = true

structure BootOk (sha : Digest Bytes) (dist : Dist) (package : Package) (m : Manifest)
    (b : BootRow) : Prop where
  passed : b.pass = true
  distro : package.variant.isDistro = true → (distroChecks b.mode).all b.checks.contains = true
  networkExec : b.mode = text "split" ∧ package.variant = .tinyShell → b.networkExec = 3
  log : ∃ log, dist.logs.lookup (package.name ++ text "-" ++ b.mode ++ text ".log") = some log ∧
    sha.hash log = b.uartSha256 ∧ ShowsVersion m log
  baseline : (b.mode = text "payload" ∨ b.mode = text "shell") ∧ package.variant = .buildroot →
    capabilityNames.all b.capabilities.contains = true ∧ b.networkExec = 4
  functional : b.mode = text "payload" ∧ package.variant = .buildroot →
    b.childProcesses = some 100 ∧ b.sleepWallSeconds.any (89 ≤ ·) = true
  sleep : b.mode = text "payload" ∧ package.variant = .tinyShell →
    (b.commands.any fun c => c.1 = text "sleep 2" && 9 / 5 ≤ c.2) = true

/-- The checks of an archive and of its row in the test results. -/
structure ArchiveOk (sha : Digest Bytes) (t : Tree) (dist : Dist) (package : Package)
    (archive : Document Manifest) (result : ResultRow) : Prop where
  passed : result.pass = true
  digest : result.archiveSha256 = sha.hash archive.bytes
  preset : archive.value.preset = stem package.preset
  bits : int (archBits package.cfg) = some archive.value.bits
  variant : archive.value.variant = package.variant.name
  kernelVersion : archive.value.kernelVersion = package.cfg.kernelVersion
  kernelHz : archive.value.kernelHz = 100
  memory : archive.value.memoryMib = result.memoryMib ∧ result.memoryMib = 1024
  presetCurrent : ∃ h, fileSha sha t package.preset = .ok h ∧
    archive.value.buildInputs.lookup package.preset = some h
  inputs : ∀ row ∈ archive.value.buildInputs, (t.file? row.1).map sha.hash = some row.2
  modeCount : result.boots.length = (modes package.variant).length
  modes : ∀ mode, mode ∈ result.boots.map BootRow.mode ↔ mode ∈ modes package.variant
  boots : ∀ b ∈ result.boots, BootOk sha dist package archive.value b

variable {toml : Bytes → Option Preset} {sha : Digest Bytes} {t : Tree} {dist : Dist}

theorem fileSha_eq_ok {p : Path} {h : Hash} :
    fileSha sha t p = .ok h ↔ (t.file? p).map sha.hash = some h := by
  rw [fileSha]
  cases t.file? p with
  | none =>
    constructor
    · intro hsha
      cases hsha
    · intro hsha
      cases hsha
  | some content =>
    constructor
    · intro hsha
      cases hsha
      rfl
    · intro hsha
      cases hsha
      rfl

theorem checkBoot_isOk {name : Text} {package : Package} {m : Manifest} {b : BootRow} :
    (checkBoot sha dist name package m b).isOk = true ↔ BootOk sha dist package m b := by
  have hfunctional : (∃ children, b.childProcesses = some children ∧
      (decide (children = 100) && b.sleepWallSeconds.any fun x => decide (89 ≤ x)) = true) ↔
      b.childProcesses = some 100 ∧ b.sleepWallSeconds.any (89 ≤ ·) = true := by
    simp only [Bool.and_eq_true, decide_eq_true_eq]
    constructor
    · rintro ⟨_, hchildren, rfl, hsleep⟩
      exact ⟨hchildren, hsleep⟩
    · rintro ⟨hchildren, hsleep⟩
      exact ⟨100, hchildren, rfl, hsleep⟩
  unfold checkBoot
  simp only [isOk_bind, isOk_when, isOk_when_bind, isOk_when_last, isOk_require, require_eq_ok,
    orRaise_eq_ok, decide_eq_true_eq, exists_const, hfunctional]
  constructor
  · rintro ⟨hpass, hdistro, hnetwork, log, hlog, hsha, hversion, hbaseline, hfunctional, hsleep⟩
    exact ⟨hpass, hdistro, hnetwork, ⟨log, hlog, hsha, hversion⟩, hbaseline, hfunctional, hsleep⟩
  · rintro ⟨hpass, hdistro, hnetwork, ⟨log, hlog, hsha, hversion⟩, hbaseline, hfunctional, hsleep⟩
    exact ⟨hpass, hdistro, hnetwork, log, hlog, hsha, hversion, hbaseline, hfunctional, hsleep⟩

theorem checkBoots_isOk {name : Text} {package : Package} {m : Manifest} {boots : List BootRow} :
    (checkBoots sha dist name package m boots).isOk = true ↔
      ∀ b ∈ boots, BootOk sha dist package m b := by
  induction boots with
  | nil => exact ⟨fun _ b hb => absurd hb List.not_mem_nil, fun _ => rfl⟩
  | cons b boots ih =>
    rw [checkBoots, isOk_bind, List.forall_mem_cons, ← ih, ← @checkBoot_isOk _ _ name]
    constructor
    · rintro ⟨_, hb, h⟩
      exact ⟨isOk_iff.mpr ⟨_, hb⟩, h⟩
    · rintro ⟨hb, h⟩
      obtain ⟨_, hb⟩ := isOk_iff.mp hb
      exact ⟨_, hb, h⟩

theorem checkInputs_isOk {name : Text} {inputs : InputMap} :
    (checkInputs sha t name inputs).isOk = true ↔
      ∀ row ∈ inputs, (t.file? row.1).map sha.hash = some row.2 := by
  induction inputs with
  | nil => exact ⟨fun _ row hrow => absurd hrow List.not_mem_nil, fun _ => rfl⟩
  | cons row inputs ih =>
    rw [List.forall_mem_cons, ← ih]
    simp only [checkInputs, isOk_bind, require_eq_ok, decide_eq_true_eq, fileSha_eq_ok, exists_const]
    constructor
    · rintro ⟨_, hsha, rfl, h⟩
      exact ⟨hsha, h⟩
    · rintro ⟨hsha, h⟩
      exact ⟨_, hsha, rfl, h⟩

/-- The digest of an archive is returned exactly when its checks pass. -/
theorem checkArchive_eq_ok {name : Text} {package : Package} {row : Text × Hash} :
    checkArchive sha t dist name package = .ok row ↔
      ∃ archive result, dist.archives.lookup name = some archive ∧
        dictGet (dist.tests.value.results.map fun r => (r.archive, r)) name = some result ∧
        ArchiveOk sha t dist package archive result ∧ row = (name, sha.hash archive.bytes) := by
  simp only [checkArchive, bind_eq_ok, require_eq_ok, orRaise_eq_ok, Bool.and_eq_true,
    decide_eq_true_eq, exists_const]
  constructor
  · rintro ⟨archive, harchive, result, hresult, hpass, _, hbits, hmanifest, hmemory, presetSha,
      hpresetSha, hcurrent, _, hinputs, hmodes, _, hboots, h⟩
    obtain ⟨⟨⟨⟨hpreset, rfl⟩, hvariant⟩, hversion⟩, hhz⟩ := hmanifest
    exact ⟨archive, result, harchive, hresult,
      { passed := hpass.1, digest := hpass.2, preset := hpreset, bits := hbits, variant := hvariant
        kernelVersion := hversion, kernelHz := hhz, memory := hmemory
        presetCurrent := ⟨presetSha, hpresetSha, hcurrent⟩
        inputs := checkInputs_isOk.mp (isOk_iff.mpr ⟨_, hinputs⟩)
        modeCount := hmodes.1, modes := setEq_iff.mp hmodes.2
        boots := checkBoots_isOk.mp (isOk_iff.mpr ⟨_, hboots⟩) }, (Except.ok.inj h).symm⟩
  · rintro ⟨archive, result, harchive, hresult, hok, rfl⟩
    obtain ⟨presetSha, hpresetSha, hcurrent⟩ := hok.presetCurrent
    obtain ⟨_, hinputs⟩ := isOk_iff.mp (checkInputs_isOk.mpr hok.inputs)
    obtain ⟨_, hboots⟩ := isOk_iff.mp (checkBoots_isOk.mpr hok.boots)
    exact ⟨archive, harchive, result, hresult, ⟨hok.passed, hok.digest⟩, _, hok.bits,
      ⟨⟨⟨⟨hok.preset, rfl⟩, hok.variant⟩, hok.kernelVersion⟩, hok.kernelHz⟩, hok.memory, presetSha,
      hpresetSha, hcurrent, _, hinputs, ⟨hok.modeCount, setEq_iff.mpr hok.modes⟩, _, hboots, rfl⟩

/-- One digest for each package, under its name. -/
theorem checkArchives_eq_ok {packages : List (Text × Package)} {archives : List (Text × Hash)} :
    checkArchives sha t dist packages = .ok archives ↔
      List.Forall₂ (fun item row => checkArchive sha t dist item.1 item.2 = .ok row) packages
        archives := by
  induction packages generalizing archives with
  | nil =>
    constructor
    · intro h
      cases h
      exact .nil
    · rintro ⟨⟩
      rfl
  | cons item packages ih =>
    simp only [checkArchives, bind_eq_ok]
    constructor
    · rintro ⟨row, hrow, rest, hrest, h⟩
      cases h
      exact .cons hrow (ih.mp hrest)
    · rintro (_ | ⟨hrow, hrest⟩)
      exact ⟨_, hrow, _, ih.mpr hrest, rfl⟩

/-- What is checked before anything is recorded. -/
structure GateOk (toml : Bytes → Option Preset) (sha : Digest Bytes) (t : Tree) (dist : Dist)
    (packages : List (Text × Package)) : Prop where
  matrix : expected toml t = some packages
  names : ∀ name, name ∈ packages.map (·.1) ↔ name ∈ dist.archives.map (·.1)
  passed : dist.tests.value.pass = true
  runner : ∃ h, fileSha sha t (script "test-packages.py") = .ok h ∧
    dist.tests.value.runnerSha256 = some h
  dependencies : ∃ runtime common, fileSha sha t (script "distro_runtime.py") = .ok runtime ∧
    fileSha sha t (script "release_common.py") = .ok common ∧
    dictEq dist.tests.value.dependencies
      [(text "distro_runtime.py", runtime), (text "release_common.py", common)] = true
  count : dist.tests.value.results.length = packages.length
  covered : ∀ name, name ∈ dist.tests.value.results.map ResultRow.archive ↔
    name ∈ packages.map (·.1)

/-- What is recorded. -/
def recordOf (sha : Digest Bytes) (dist : Dist) (archives : List (Text × Hash))
    (source : List (Path × Hash)) : Record where
  schema := 1
  ready := true
  packageCount := archives.length
  bootPaths := (dist.tests.value.results.map fun r => r.boots.length).sum
  boardTested := false
  published := false
  archives := archives
  testResultsSha256 := sha.hash dist.tests.bytes
  sourceFiles := source

theorem main_write_eq_ok {record : Record} :
    main toml sha true t dist = .ok record ↔
      ∃ packages archives source, GateOk toml sha t dist packages ∧
        checkArchives sha t dist packages = .ok archives ∧ sourceRecord sha t = .ok source ∧
        record = recordOf sha dist archives source := by
  simp only [main, bind_eq_ok, require_eq_ok, orRaise_eq_ok, Bool.and_eq_true, decide_eq_true_eq,
    exists_const, if_true]
  constructor
  · rintro ⟨packages, hpackages, hset, hpass, runner, hrunner, hrunnerSha, runtime, hruntime, common,
      hcommon, hdependencies, hcoverage, archives, harchives, source, hsource, h⟩
    exact ⟨packages, archives, source,
      ⟨hpackages, setEq_iff.mp hset, hpass, ⟨runner, hrunner, hrunnerSha⟩,
        ⟨runtime, common, hruntime, hcommon, hdependencies⟩, hcoverage.1,
        setEq_iff.mp hcoverage.2⟩, harchives, hsource, (Except.ok.inj h).symm⟩
  · rintro ⟨packages, archives, source, hgate, harchives, hsource, rfl⟩
    obtain ⟨runner, hrunner, hrunnerSha⟩ := hgate.runner
    obtain ⟨runtime, common, hruntime, hcommon, hdependencies⟩ := hgate.dependencies
    exact ⟨packages, hgate.matrix, setEq_iff.mpr hgate.names, hgate.passed, runner, hrunner,
      hrunnerSha, runtime, hruntime, common, hcommon, hdependencies,
      ⟨hgate.count, setEq_iff.mpr hgate.covered⟩, archives, harchives, source, hsource, rfl⟩

/-! ## What `--write` records -/

/-- The rows of `SHA256SUMS`. -/
def checksums (archives : List (Text × Hash)) : List (Hash × Text) :=
  (archives.mergeSort fun a b => decide (a.1 ≤ b.1)).map fun row => (row.2, row.1)

/-- The release directory after `--write`. -/
def written (sha : Digest Bytes) (dist : Dist) (record : Record) (notes : Bytes) : Dist :=
  { dist with
    sums := some (checksums record.archives)
    notes := some notes
    ready := some ⟨record, sha.hash notes⟩ }

structure SameRecord (a b : Record) : Prop where
  schema : a.schema = b.schema
  ready : a.ready = b.ready
  packageCount : a.packageCount = b.packageCount
  bootPaths : a.bootPaths = b.bootPaths
  boardTested : a.boardTested = b.boardTested
  published : a.published = b.published
  archives : ∀ name, dictGet a.archives name = dictGet b.archives name
  testResults : a.testResultsSha256 = b.testResultsSha256
  sourceFiles : ∀ p, dictGet a.sourceFiles p = dictGet b.sourceFiles p

/-- What a check without `--write` does with the record it has made. -/
def compare (sha : Digest Bytes) (dist : Dist) (record : Record) : Except Refusal Record := do
  let previous ← orRaise dist.ready .raised
  require (dist.sums = some (checksums record.archives)) .checksums
  let notes ← orRaise dist.notes .raised
  require (previous.notesSha256 = sha.hash notes) .notes
  require (previous.record.schema = 1 && previous.record.ready &&
    previous.record.packageCount = record.packageCount &&
    previous.record.bootPaths = record.bootPaths && !previous.record.boardTested &&
    !previous.record.published && dictEq previous.record.archives record.archives &&
    previous.record.testResultsSha256 = record.testResultsSha256 &&
    dictEq previous.record.sourceFiles record.sourceFiles) .stale
  return record

theorem main_check : main toml sha false t dist = main toml sha true t dist >>= compare sha dist := by
  simp only [main, bind_assoc, if_true, Bool.false_eq_true, if_false, pure_bind]
  rfl

theorem compare_isOk {archives : List (Text × Hash)} {source : List (Path × Hash)} :
    (compare sha dist (recordOf sha dist archives source)).isOk = true ↔
      ∃ previous notes, dist.ready = some previous ∧ dist.sums = some (checksums archives) ∧
        dist.notes = some notes ∧ previous.notesSha256 = sha.hash notes ∧
        SameRecord previous.record (recordOf sha dist archives source) := by
  simp only [compare, isOk_bind, require_eq_ok, orRaise_eq_ok, Bool.and_eq_true, decide_eq_true_eq,
    exists_const, Bool.not_eq_true']
  constructor
  · rintro ⟨previous, hprevious, hsums, notes, hnotes, hnotesSha, hsame, -⟩
    obtain ⟨⟨⟨⟨⟨⟨⟨⟨hschema, hready⟩, hcount⟩, hpaths⟩, hboard⟩, hpublished⟩, hrows⟩, htests⟩, hfiles⟩ :=
      hsame
    exact ⟨previous, notes, hprevious, hsums, hnotes, hnotesSha, hschema, hready, hcount, hpaths,
      hboard, hpublished, dictEq_iff.mp hrows, htests, dictEq_iff.mp hfiles⟩
  · rintro ⟨previous, notes, hprevious, hsums, hnotes, hnotesSha, hsame⟩
    exact ⟨previous, hprevious, hsums, notes, hnotes, hnotesSha,
      ⟨⟨⟨⟨⟨⟨⟨⟨hsame.schema, hsame.ready⟩, hsame.packageCount⟩, hsame.bootPaths⟩, hsame.boardTested⟩,
        hsame.published⟩, dictEq_iff.mpr hsame.archives⟩, hsame.testResults⟩,
        dictEq_iff.mpr hsame.sourceFiles⟩, rfl⟩

/-! ## What the record says -/

/-- A dict whose values are a function of their keys. -/
theorem dictGet_of_values {κ α : Type} [BEq κ] [LawfulBEq κ] {pairs : List (κ × α)} {f : κ → Option α}
    (h : ∀ pair ∈ pairs, f pair.1 = some pair.2) (key : κ) (hkey : key ∉ pairs.map (·.1) → f key = none) :
    dictGet pairs key = f key := by
  cases hget : dictGet pairs key with
  | some a => exact (h _ (mem_of_dictGet hget)).symm
  | none =>
    by_cases hmem : key ∈ pairs.map (·.1)
    · obtain ⟨a, ha⟩ := dictGet_isSome hmem
      rw [hget] at ha
      cases ha
    · exact (hkey hmem).symm

theorem nodup_eraseDups {α : Type} [BEq α] [LawfulBEq α] (l : List α) : l.eraseDups.Nodup := by
  generalize hn : l.length = n
  induction n using Nat.strongRecOn generalizing l with
  | ind n ih =>
    cases l with
    | nil => exact List.nodup_nil
    | cons a l =>
      have hfilter := List.length_filter_le (fun b => !b == a) l
      rw [List.eraseDups_cons, List.nodup_cons, List.mem_eraseDups]
      refine ⟨by simp, ih _ ?_ _ rfl⟩
      rw [List.length_cons] at hn
      omega

theorem dictItems_keys {κ α : Type} [BEq κ] [LawfulBEq κ] (pairs : List (κ × α)) :
    (dictItems pairs).map (·.1) = (pairs.map (·.1)).eraseDups := by
  have hall : ∀ keys : List κ, (∀ key ∈ keys, key ∈ pairs.map (·.1)) →
      (keys.filterMap fun key => (dictGet pairs key).map (key, ·)).map (·.1) = keys := by
    intro keys hkeys
    induction keys with
    | nil => rfl
    | cons key keys ih =>
      rw [List.forall_mem_cons] at hkeys
      obtain ⟨a, ha⟩ := dictGet_isSome hkeys.1
      simpa [ha] using ih hkeys.2
  exact hall _ fun key hkey => List.mem_eraseDups.mp hkey

theorem expected_nodup {packages : List (Text × Package)} (h : expected toml t = some packages) :
    (packages.map (·.1)).Nodup := by
  obtain ⟨rows, _, h⟩ := Option.bind_eq_some_iff.mp h
  cases h
  rw [dictItems_keys]
  exact nodup_eraseDups _

/-- The files of `source`. -/
def recordedFiles (t : Tree) : List Path :=
  t.glob [text "scripts"] (text ".py") ++
    [[text "README.md"], makefile, script "buildroot.mk", script "distro.mk"] ++
    (t.iterdir rootfsDistro).getD [] ++ t.glob configs (text ".toml") ++
    t.glob [text "docs"] (text ".md")

/-- The content of a file that is recorded. -/
def recorded (t : Tree) (p : Path) : Option Bytes :=
  if p ∈ recordedFiles t then t.file? p else none

theorem sourceRecord_get {source : List (Path × Hash)} (h : sourceRecord sha t = .ok source)
    (p : Path) : dictGet source p = (recorded t p).map sha.hash := by
  obtain ⟨distro, hdistro, h⟩ := bind_ok h
  have hfiles : hashFiles sha t (recordedFiles t) = some source := by
    rw [recordedFiles, orRaise_ok hdistro]
    exact orRaise_ok h
  apply dictGet_of_values (f := fun p => (recorded t p).map sha.hash)
  · intro row hrow
    have hmem : row.1 ∈ recordedFiles t := by
      apply Classical.byContradiction
      intro hnot
      have hlookup := hashFiles_lookup sha hfiles row.1
      rw [if_neg hnot, List.lookup_eq_none_iff] at hlookup
      have := hlookup row hrow
      simp at this
    rw [recorded, if_pos hmem]
    exact hashFiles_rows sha hfiles row hrow
  · intro hnot
    by_cases hmem : p ∈ recordedFiles t
    · obtain ⟨content, _, hlookup⟩ := hashFiles_mem sha hfiles hmem
      exact absurd (List.mem_map_of_mem (mem_of_lookup hlookup)) hnot
    · rw [recorded, if_neg hmem]
      rfl

/-- The bytes of an archive. -/
def archived (dist : Dist) (name : Text) : Option Bytes :=
  (dist.archives.lookup name).map Document.bytes

theorem checkArchives_rows {packages : List (Text × Package)} {archives : List (Text × Hash)}
    (h : checkArchives sha t dist packages = .ok archives) :
    archives.map (·.1) = packages.map (·.1) ∧
      ∀ row ∈ archives, (archived dist row.1).map sha.hash = some row.2 := by
  rw [checkArchives_eq_ok] at h
  induction h with
  | nil => exact ⟨rfl, fun row hrow => absurd hrow List.not_mem_nil⟩
  | @cons item row packages archives hrow _ ih =>
    obtain ⟨archive, result, harchive, -, -, rfl⟩ := checkArchive_eq_ok.mp hrow
    refine ⟨by rw [List.map_cons, List.map_cons, ih.1], ?_⟩
    rw [List.forall_mem_cons]
    refine ⟨?_, ih.2⟩
    rw [archived, harchive]
    rfl

theorem archives_get {packages : List (Text × Package)} {archives : List (Text × Hash)}
    (hgate : GateOk toml sha t dist packages) (h : checkArchives sha t dist packages = .ok archives)
    (name : Text) : dictGet archives name = (archived dist name).map sha.hash := by
  obtain ⟨hnames, hrows⟩ := checkArchives_rows h
  apply dictGet_of_values (f := fun name => (archived dist name).map sha.hash) hrows
  intro hnot
  rw [hnames, hgate.names] at hnot
  have hnone : dist.archives.lookup name = none := by
    rw [List.lookup_eq_none_iff]
    intro row hrow
    rw [bne_iff_ne]
    rintro rfl
    exact hnot (List.mem_map_of_mem hrow)
  rw [archived, hnone]
  rfl

theorem mem_iff_dictGet {κ α : Type} [BEq κ] [LawfulBEq κ] {pairs : List (κ × α)}
    (h : (pairs.map (·.1)).Nodup) {key : κ} {a : α} :
    (key, a) ∈ pairs ↔ dictGet pairs key = some a := by
  constructor
  · intro hmem
    obtain ⟨b, hb⟩ := dictGet_isSome (List.mem_map_of_mem (f := (·.1)) hmem)
    have hpair := List.inj_on_of_nodup_map h (mem_of_dictGet hb) hmem rfl
    rw [hb, (Prod.mk.inj hpair).2]
  · exact mem_of_dictGet

theorem perm_of_dictGet {κ α : Type} [BEq κ] [LawfulBEq κ] {a b : List (κ × α)}
    (ha : (a.map (·.1)).Nodup) (hb : (b.map (·.1)).Nodup)
    (h : ∀ key, dictGet a key = dictGet b key) : a.Perm b := by
  rw [List.perm_ext_iff_of_nodup (ha.of_map _) (hb.of_map _)]
  rintro ⟨key, v⟩
  rw [mem_iff_dictGet ha, mem_iff_dictGet hb, h key]

/-- The sums do not depend on the order of the archives. -/
theorem checksums_perm {a b : List (Text × Hash)} (ha : (a.map (·.1)).Nodup) (h : a.Perm b) :
    checksums a = checksums b := by
  have hsorted : ∀ l : List (Text × Hash),
      (l.mergeSort fun a b => decide (a.1 ≤ b.1)).Pairwise fun a b => decide (a.1 ≤ b.1) = true := by
    intro l
    apply List.pairwise_mergeSort
    · intro x y z hxy hyz
      exact decide_eq_true (le_trans (of_decide_eq_true hxy) (of_decide_eq_true hyz))
    · intro x y
      simpa using le_total x.1 y.1
  rw [checksums, checksums]
  congr 1
  apply List.Perm.eq_of_pairwise _ (hsorted a) (hsorted b)
  · exact ((List.mergeSort_perm a _).trans h).trans (List.mergeSort_perm b _).symm
  · intro x y hx hy hxy hyx
    have hx' := (List.mergeSort_perm a _).mem_iff.mp hx
    have hy' := h.mem_iff.mpr ((List.mergeSort_perm b _).mem_iff.mp hy)
    exact List.inj_on_of_nodup_map ha hx' hy'
      (le_antisymm (of_decide_eq_true hxy) (of_decide_eq_true hyx))

/-! ## A later check -/

/-- What a check compares: the archives and the test results that were recorded,
the source files that are recorded, and what `--write` left. -/
structure Unchanged (t t' : Tree) (dist dist' : Dist) (rows : List (Text × Hash))
    (notes : Bytes) : Prop where
  archives : ∀ name, archived dist' name = archived dist name
  tests : dist'.tests.bytes = dist.tests.bytes
  sources : ∀ p, recorded t' p = recorded t p
  sums : dist'.sums = some (checksums rows)
  notes : dist'.notes = some notes

theorem map_hash_inj {a b : Option Bytes} : a.map sha.hash = b.map sha.hash ↔ a = b :=
  ⟨fun h => Option.map_injective sha.injective h, congrArg _⟩

variable {t' : Tree} {dist' : Dist} {record : Record}

theorem check_isOk_iff (notes : Bytes) (h : main toml sha true t dist = .ok record)
    (hread : dist'.tests.bytes = dist.tests.bytes → dist'.tests.value = dist.tests.value)
    (hready : dist'.ready = some ⟨record, sha.hash notes⟩) :
    (main toml sha false t' dist').isOk = true ↔
      (main toml sha true t' dist').isOk = true ∧ Unchanged t t' dist dist' record.archives notes := by
  obtain ⟨packages, archives, source, hgate, harchives, hsource, rfl⟩ := main_write_eq_ok.mp h
  have hnodup : (archives.map (·.1)).Nodup := by
    rw [(checkArchives_rows harchives).1]
    exact expected_nodup hgate.matrix
  rw [main_check, isOk_bind]
  constructor
  · rintro ⟨record', hrecord', hcompare⟩
    refine ⟨isOk_iff.mpr ⟨_, hrecord'⟩, ?_⟩
    obtain ⟨packages', archives', source', hgate', harchives', hsource', rfl⟩ :=
      main_write_eq_ok.mp hrecord'
    obtain ⟨previous, notes', hprevious, hsums, hnotes, hnotesSha, hsame⟩ := compare_isOk.mp hcompare
    cases hready.symm.trans hprevious
    have hnodup' : (archives'.map (·.1)).Nodup := by
      rw [(checkArchives_rows harchives').1]
      exact expected_nodup hgate'.matrix
    refine ⟨?_, (sha.injective hsame.testResults).symm, ?_, ?_, ?_⟩
    · intro name
      apply (@map_hash_inj sha _ _).mp
      rw [← archives_get hgate' harchives', ← archives_get hgate harchives]
      exact (hsame.archives name).symm
    · intro p
      apply (@map_hash_inj sha _ _).mp
      rw [← sourceRecord_get hsource', ← sourceRecord_get hsource]
      exact (hsame.sourceFiles p).symm
    · rw [hsums, recordOf, checksums_perm hnodup (perm_of_dictGet hnodup hnodup' hsame.archives)]
    · rw [hnotes, sha.injective hnotesSha]
  · rintro ⟨hwrite, hunchanged⟩
    obtain ⟨record', hrecord'⟩ := isOk_iff.mp hwrite
    refine ⟨record', hrecord', ?_⟩
    obtain ⟨packages', archives', source', hgate', harchives', hsource', rfl⟩ :=
      main_write_eq_ok.mp hrecord'
    have hnodup' : (archives'.map (·.1)).Nodup := by
      rw [(checkArchives_rows harchives').1]
      exact expected_nodup hgate'.matrix
    have hrows : ∀ name, dictGet archives name = dictGet archives' name := by
      intro name
      rw [archives_get hgate harchives, archives_get hgate' harchives', hunchanged.archives]
    have hperm := perm_of_dictGet hnodup hnodup' hrows
    refine compare_isOk.mpr ⟨_, notes, hready, ?_, hunchanged.notes, rfl, rfl, rfl, ?_, ?_, rfl, rfl,
      hrows, ?_, ?_⟩
    · rw [hunchanged.sums, recordOf, ← checksums_perm hnodup hperm]
    · exact hperm.length_eq
    · simp only [recordOf, hread hunchanged.tests]
    · simp only [recordOf, hunchanged.tests]
    · intro p
      rw [recordOf, recordOf, sourceRecord_get hsource, sourceRecord_get hsource',
        hunchanged.sources]

section

variable (harchives : dist'.archives = dist.archives) (htests : dist'.tests = dist.tests)
  (hlogs : dist'.logs = dist.logs)

include hlogs in
theorem BootOk.congr {package : Package} {m : Manifest} {b : BootRow}
    (h : BootOk sha dist package m b) : BootOk sha dist' package m b :=
  { h with log := hlogs ▸ h.log }

include harchives htests hlogs in
/-- The record is made from the archives, the test results and the logs. -/
theorem main_write_congr (h : main toml sha true t dist = .ok record) :
    main toml sha true t dist' = .ok record := by
  obtain ⟨packages, archives, source, hgate, hrows, hsource, rfl⟩ := main_write_eq_ok.mp h
  refine main_write_eq_ok.mpr ⟨packages, archives, source, ?_, ?_, hsource, ?_⟩
  · obtain ⟨hmatrix, hnames, hpassed, hrunner, hdependencies, hcount, hcovered⟩ := hgate
    exact ⟨hmatrix, harchives ▸ hnames, htests ▸ hpassed, htests ▸ hrunner, htests ▸ hdependencies,
      htests ▸ hcount, htests ▸ hcovered⟩
  · rw [checkArchives_eq_ok] at hrows ⊢
    refine hrows.imp fun item row hrow => ?_
    obtain ⟨archive, result, harchive, hresult, hok, rfl⟩ := checkArchive_eq_ok.mp hrow
    exact checkArchive_eq_ok.mpr ⟨archive, result, harchives ▸ harchive, htests ▸ hresult,
      { hok with boots := fun b hb => (hok.boots b hb).congr hlogs }, rfl⟩
  · rw [recordOf, recordOf, htests]

end

/-- What `--write` leaves passes a check, and a later state with its record
passes exactly when `--write` would accept it too and nothing recorded has
changed. -/
theorem release_check_iff_unchanged (h : main toml sha true t dist = .ok record) (notes : Bytes) :
    (main toml sha false t (written sha dist record notes)).isOk = true ∧
      ∀ (t' : Tree) (dist' : Dist),
        (dist'.tests.bytes = dist.tests.bytes → dist'.tests.value = dist.tests.value) →
        dist'.ready = some ⟨record, sha.hash notes⟩ →
        ((main toml sha false t' dist').isOk = true ↔ (main toml sha true t' dist').isOk = true ∧
          Unchanged t t' dist dist' record.archives notes) := by
  constructor
  · generalize hdist : written sha dist record notes = dist'
    have hwritten : main toml sha true t dist' = .ok record := by
      apply main_write_congr _ _ _ h <;> rw [← hdist] <;> rfl
    refine (check_isOk_iff notes h ?_ ?_).mpr ⟨isOk_iff.mpr ⟨record, hwritten⟩, ?_⟩
    · rw [← hdist]
      exact fun _ => rfl
    · rw [← hdist]
      rfl
    · rw [← hdist]
      exact ⟨fun _ => rfl, rfl, fun _ => rfl, rfl, rfl⟩
  · intro t' dist' hread hready
    exact check_isOk_iff notes h hread hready

theorem release_check_iff_unchanged_one : ∃ record,
    main onePreset plainSha true builtTree oneDist = .ok record ∧
      (main onePreset plainSha false builtTree (written plainSha oneDist record [])).isOk = true := by
  obtain ⟨record, h⟩ : (oneCandidate builtTree expected_builtTree).Accepted true :=
    accepted_of_isSome (by decide +kernel)
  exact ⟨record, h, (release_check_iff_unchanged h []).1⟩

end LinuxBuild.Release
