import LinuxBuild.Agreement
import LinuxBuild.BuiltRelease
import LinuxBuild.TestedRelease

/-!
# From the presets to a release candidate

`make package_all`, `make test_all` and `make release_ready` one after another.
What `build-release.py` has built and `test-packages.py` has tested leaves
`check-release.py` little to find: the rest is up to the presets.
-/

namespace LinuxBuild.ReleaseCandidate

open Repository Toml BuildRelease
open Packages (view distroVariant)
open PackageTests (PackageReady Collected testOne runnerFiles logName ready_of_accepted
  accepted_of_ready)

/-! ## A package and its preset -/

/-- `preset['kernel']['config']['HZ']`. -/
def presetHz (cfg : Value) : Option Value :=
  ((cfg.item? (text "kernel")).bind (·.item? (text "config"))).bind (·.item? (text "HZ"))

/-- What the gate asks of a preset: the timer frequency of a firmware package,
and the memory. The kernel of a distribution has its frequency checked when it
is packaged. -/
structure Wanted (cfg : Value) (variant : Variant) : Prop where
  timer : variant.isDistro = false → ∃ hz, presetHz cfg = some hz ∧ hz.isInt 100 = true
  memory : ∃ ram, Packages.memory cfg variant = some ram ∧ ram.isInt 1024 = true

/-- A manifest that was made for a package of the matrix. -/
structure Describes (repr : Value → Text) (sha : Digest Bytes) (t : Tree) (a : Package)
    (cfg : Value) (m : Packages.Manifest) : Prop where
  preset : m.preset = stem a.preset
  variant : m.variant = a.variant
  bits : Python.int (archBits a.cfg) = some m.bits
  version : m.kernelVersion.str repr = a.cfg.kernelVersion
  inputs : buildInputs sha t a.variant a.preset = some m.buildInputs
  wanted : m.kernelHz = 100 ∧ m.memoryMib.isInt 1024 = true ↔ Wanted cfg a.variant

theorem isInt_iff {v : Value} {a b : Int} (h : v.isInt a = true) : v.isInt b = true ↔ a = b := by
  cases v with
  | integer n =>
    have hn : n = a := beq_iff_eq.mp h
    simp [Value.isInt, hn]
  | boolean v =>
    have hv : a = if v then 1 else 0 := beq_iff_eq.mp h
    rw [hv]
    exact beq_iff_eq.trans eq_comm
  | float x =>
    cases x with
    | finite q =>
      have hq : q = a := beq_iff_eq.mp h
      simp [Value.isInt, hq]
    | infinite | nan => cases h
  | string | moment | array | table => cases h

theorem mem_variants_distro {cfg : Value} {v : Preset} {repr : Value → Text} {type : Value}
    {kind : Distro.Kind} {variant : Variant} (hview : view repr cfg = some v)
    (htype : (cfg.item? (text "rootfs")).bind (·.item? (text "type")) = some type)
    (hkind : Distro.kindOf type = some kind) (h : variant ∈ variants v) :
    variant = distroVariant kind := by
  obtain ⟨target, -, hview⟩ := Option.bind_eq_some_iff.mp hview
  obtain ⟨arch, -, hview⟩ := Option.bind_eq_some_iff.mp hview
  obtain ⟨kernel, -, hview⟩ := Option.bind_eq_some_iff.mp hview
  obtain ⟨version, -, hview⟩ := Option.bind_eq_some_iff.mp hview
  obtain ⟨rootfs, hrootfs, htype⟩ := Option.bind_eq_some_iff.mp htype
  rw [hrootfs, Option.getD_some] at hview
  cases rootfs with
  | table rows =>
    cases hview
    rw [Value.item?] at htype
    unfold Distro.kindOf at hkind
    split at hkind
    · rename_i halpine
      obtain rfl := Value.isText_eq halpine
      cases hkind
      simpa [variants, htype, Value.string?, distroVariant] using h
    · split at hkind
      · rename_i hdebian
        obtain rfl := Value.isText_eq hdebian
        cases hkind
        have hne : text "debian" ≠ text "alpine" := by decide
        simpa [variants, htype, Value.string?, hne, distroVariant] using h
      · cases hkind
  | string | integer | float | boolean | moment | array => cases htype

section

variable {readers : Packages.Readers} {sha : Digest Bytes} {w : Packages.Surroundings}
  {p : Packages.Staged} {cfg : Value}

/-- The frequency the preset has is the one that is recorded. -/
theorem checkConfig_hz {args : Packages.Artifacts} {n : Nat}
    (h : Packages.checkConfig cfg args = .ok n) :
    ∃ hz, presetHz cfg = some hz ∧ hz.isInt n = true := by
  obtain ⟨_, _, h⟩ := Python.bind_ok h
  obtain ⟨hz, _, h⟩ := Python.bind_ok h
  obtain ⟨kernel, hkernel, h⟩ := Python.bind_ok h
  obtain ⟨wanted, hwanted, h⟩ := Python.bind_ok h
  obtain ⟨_, hsame, h⟩ := Python.bind_ok h
  obtain ⟨_, _, h⟩ := Python.bind_ok h
  obtain ⟨_, _, h⟩ := Python.bind_ok h
  obtain ⟨_, _, h⟩ := Python.bind_ok h
  cases h
  refine ⟨wanted, ?_, Python.require_ok hsame⟩
  rw [presetHz, Python.orRaise_ok hkernel]
  exact Python.orRaise_ok hwanted

/-- The makefile runs the packager in the repository of the build, for the preset
and the variant of the package. -/
structure Serves (t : Tree) (a : Package) (packager : Publish.Run) : Prop where
  tree : packager.surroundings.tree = t
  preset : packager.job.preset = a.preset
  variant : ∀ args, packager.job = .artifacts args → args.variant = a.variant

/-- A package of the matrix comes from a preset. -/
structure Listed (readers : Packages.Readers) (t : Tree) (a : Package) (cfg : Value) : Prop where
  preset : (t.file? a.preset).bind readers.toml = some cfg
  view : view readers.repr cfg = some a.cfg
  variant : a.variant ∈ variants a.cfg

/-- What a manifest has from its preset is what the matrix has. -/
theorem describes_of_reads {t : Tree} {a : Package} {m : Packages.Manifest}
    (hlisted : Listed readers t a cfg) (hreads : Packages.Reads cfg m)
    (hpreset : m.preset = stem a.preset) (hvariant : m.variant = a.variant)
    (hinputs : buildInputs sha t m.variant a.preset = some m.buildInputs)
    (htimer : m.kernelHz = 100 ↔
      (a.variant.isDistro = false → ∃ hz, presetHz cfg = some hz ∧ hz.isInt 100 = true)) :
    Describes readers.repr sha t a cfg m := by
  obtain ⟨⟨version, hversion, hversionText⟩, ⟨arch, harch, harchText⟩, -⟩ :=
    Agreement.view_eq hlisted.view
  obtain ⟨hbits, hkernel, hmemory⟩ := hreads
  rw [hvariant] at hmemory
  refine ⟨hpreset, hvariant, ?_, ?_, hvariant ▸ hinputs, ?_⟩
  · obtain ⟨target, htarget, harch⟩ := Option.bind_eq_some_iff.mp harch
    simp only [Packages.archBits, htarget, Option.bind_eq_bind, Option.bind_some, harch,
      Value.string?] at hbits
    rw [← hbits, archBits, archBits, harchText]
  · rw [hversion] at hkernel
    cases hkernel
    exact hversionText.symm
  · constructor
    · rintro ⟨hhz, hram⟩
      exact ⟨htimer.mp hhz, m.memoryMib, hmemory, hram⟩
    · rintro ⟨hhz, ram, hmemory', hram⟩
      cases hmemory.symm.trans hmemory'
      exact ⟨htimer.mpr hhz, hram⟩

theorem describes_of_package {t : Tree} {a : Package} {packager : Publish.Run}
    (hserves : Serves t a packager) (hlisted : Listed readers t a cfg)
    (h : packager.package readers sha = .ok p) :
    Describes readers.repr sha t a cfg p.manifest := by
  obtain ⟨w, job, stop⟩ := packager
  obtain ⟨htree, hpreset, hvariant⟩ := hserves
  obtain rfl : w.tree = t := htree
  have hcfg : (w.tree.file? job.preset).bind readers.toml = some cfg := by
    rw [show job.preset = a.preset from hpreset]
    exact hlisted.preset
  cases job with
  | artifacts args =>
    obtain ⟨_, hread⟩ := Packages.artifacts_read h
    cases hread.toml.symm.trans hcfg
    have hsame : args.preset = a.preset := hpreset
    have hvariant : args.variant = a.variant := hvariant args rfl
    have hfirmware : a.variant.isDistro = false := hvariant ▸ hread.image
    obtain ⟨hz, hpreset, hhz⟩ := checkConfig_hz hread.config
    have hinputs := hread.inputs
    rw [hsame, ← hread.variant] at hinputs
    apply describes_of_reads hlisted hread.reads (hsame ▸ hread.preset)
      (hread.variant.trans hvariant) hinputs
    constructor
    · rintro hhundred -
      exact ⟨hz, hpreset, by rw [hhundred] at hhz; exact hhz⟩
    · intro htimer
      obtain ⟨hz', hpreset', hhundred⟩ := htimer hfirmware
      cases hpreset.symm.trans hpreset'
      exact_mod_cast (isInt_iff hhz).mp hhundred
  | distro args =>
    obtain ⟨_, kind, hread⟩ := Packages.distro_read h
    cases hread.toml.symm.trans hcfg
    have hsame : args.preset = a.preset := hpreset
    obtain ⟨type, htype, hkind⟩ := Option.bind_eq_some_iff.mp hread.type
    have hkept := mem_variants_distro hlisted.view htype hkind hlisted.variant
    have hinputs := hread.inputs
    rw [hsame] at hinputs
    apply describes_of_reads hlisted hread.reads (hsame ▸ hread.preset)
      (hread.variant.trans hkept.symm) hinputs
    constructor
    · intro _ hfirmware
      rw [hkept] at hfirmware
      cases kind <;> cases hfirmware
    · exact fun _ => hread.timer

end

/-! ## A package that is ready -/

/-- A manifest as the gate reads it from its archive. -/
structure ReadAs (repr : Value → Text) (m : Packages.Manifest) (m' : Release.Manifest) : Prop where
  preset : m'.preset = m.preset
  bits : m'.bits = m.bits
  variant : m'.variant = m.variant.name
  kernelVersion : m'.kernelVersion = m.kernelVersion.str repr
  kernelHz : m'.kernelHz = m.kernelHz
  memory : m'.memoryMib = 1024 ↔ m.memoryMib.isInt 1024 = true
  rows : m'.buildInputs ⊆ m.buildInputs
  inputs : SameMap m'.buildInputs m.buildInputs

/-- The logs that a package has show its kernel. -/
def LogsShow (dist : Release.Dist) (a : Package) : Prop :=
  ∀ mode ∈ Release.modes a.variant, ∀ log, dist.logs.lookup (logName a.name mode) = some log →
    Console.contains (text "Linux version " ++ a.cfg.kernelVersion ++ text " ")
      (Python.universalNewlines (Utf8.decode log)) = true

section

variable {repr : Value → Text} {sha : Digest Bytes} {t : Tree} {a : Package} {cfg : Value}

theorem preset_mem_sourceFiles {variant : Variant} {preset : Path} {files : List Path}
    (h : sourceFiles t variant preset = some files) : preset ∈ files := by
  unfold sourceFiles at h
  split at h
  · obtain ⟨distro, _, h⟩ := Option.bind_eq_some_iff.mp h
    cases h
    simp
  · obtain ⟨payload, _, h⟩ := Option.bind_eq_some_iff.mp h
    cases h
    simp

/-- In the repository it was made in, a manifest lacks nothing but what the
preset was to bring. -/
theorem packageReady_iff {m : Packages.Manifest} {archive : Release.Document Release.Manifest}
    {dist : Release.Dist} (h : Describes repr sha t a cfg m) (hread : ReadAs repr m archive.value) :
    PackageReady sha t dist a archive ↔ Wanted cfg a.variant ∧ LogsShow dist a := by
  have hversion : archive.value.kernelVersion = a.cfg.kernelVersion :=
    hread.kernelVersion.trans h.version
  constructor
  · intro hready
    constructor
    · rw [← h.wanted, ← hread.kernelHz, ← hread.memory]
      exact ⟨hready.kernelHz, hready.memory⟩
    · intro mode hmode log hlog
      rw [← hversion]
      exact hready.versions mode hmode log hlog
  · rintro ⟨hwanted, hlogs⟩
    obtain ⟨hhz, hram⟩ := h.wanted.mpr hwanted
    obtain ⟨files, hfiles, hhashes⟩ := Option.bind_eq_some_iff.mp h.inputs
    obtain ⟨content, hcontent, hlookup⟩ := hashFiles_mem sha hhashes (preset_mem_sourceFiles hfiles)
    exact
      { preset := hread.preset.trans h.preset
        bits := hread.bits ▸ h.bits
        variant := hread.variant.trans (congrArg Variant.name h.variant)
        kernelVersion := hversion
        kernelHz := hread.kernelHz.trans hhz
        memory := hread.memory.mpr hram
        presetCurrent := ⟨sha.hash content, by rw [Release.fileSha_eq_ok, hcontent]; rfl,
          (hread.inputs _).trans hlookup⟩
        inputs := fun row hrow => hashFiles_rows sha hhashes row (hread.rows hrow)
        versions := fun mode hmode log hlog => by
          rw [Release.ShowsVersion, hversion]
          exact hlogs mode hmode log hlog }

end

/-! ## The matrix -/

section

variable {readers : Packages.Readers} {toml : Bytes → Option Preset} {t : Tree}
  {packages : List Package}

theorem exists_of_mapM {α β : Type} {f : α → Option β} {xs : List α} {bs : List β}
    (h : xs.mapM f = some bs) : ∀ b ∈ bs, ∃ x ∈ xs, f x = some b := by
  induction xs generalizing bs with
  | nil =>
    cases h
    simp
  | cons x xs ih =>
    rw [List.mapM_cons] at h
    obtain ⟨b, hb, h⟩ := Option.bind_eq_some_iff.mp h
    obtain ⟨rest, hrest, h⟩ := Option.bind_eq_some_iff.mp h
    cases h
    rw [List.forall_mem_cons]
    constructor
    · exact ⟨x, List.mem_cons_self, hb⟩
    · intro c hc
      obtain ⟨y, hy, hyc⟩ := ih hrest c hc
      exact ⟨y, List.mem_cons_of_mem _ hy, hyc⟩

/-- A package of the matrix comes from a preset that is there. -/
theorem listed_of_matrix
    (htoml : ∀ content, toml content = (readers.toml content).bind (view readers.repr))
    (h : matrix toml t = some packages) : ∀ a ∈ packages, ∃ cfg, Listed readers t a cfg := by
  obtain ⟨rows, hrows, h⟩ := Option.bind_eq_some_iff.mp h
  cases h
  intro a ha
  obtain ⟨row, hrow, ha⟩ := List.mem_flatten.mp ha
  obtain ⟨p, -, hp⟩ := exists_of_mapM hrows row hrow
  obtain ⟨content, hcontent, hp⟩ := Option.bind_eq_some_iff.mp hp
  obtain ⟨cfg, hcfg, hp⟩ := Option.bind_eq_some_iff.mp hp
  cases hp
  obtain ⟨variant, hvariant, rfl⟩ := List.mem_map.mp ha
  rw [htoml] at hcfg
  obtain ⟨value, hvalue, hview⟩ := Option.bind_eq_some_iff.mp hcfg
  exact ⟨value, Option.bind_eq_some_iff.mpr ⟨content, hcontent, hvalue⟩, hview, hvariant⟩

/-- With different names, `expected` has one item for each package. -/
theorem mem_expected {items : List (Text × Package)} (h : matrix toml t = some packages)
    (hdistinct : (packages.map (·.name)).Nodup) (hitems : Release.expected toml t = some items)
    {item : Text × Package} :
    item ∈ items ↔ item.2 ∈ packages ∧ item.1 = Release.archiveName item.2 := by
  rw [Release.expected, h] at hitems
  cases hitems
  have hkeys : ((packages.map fun package => (Release.archiveName package, package)).map
      (·.1)).Nodup := by
    rw [List.map_map]
    have hnames := hdistinct.map (f := fun name => name ++ text ".tar.gz")
      fun _ _ => List.append_cancel_right
    rwa [List.map_map] at hnames
  have hmem := fun key => @Release.mem_iff_dictGet _ _ _ _ _ hkeys key item.2
  rw [Python.dictItems, List.mem_filterMap]
  constructor
  · rintro ⟨key, -, hget⟩
    obtain ⟨package, hpackage, rfl⟩ := Option.map_eq_some_iff.mp hget
    obtain ⟨package', hmem', heq⟩ := List.mem_map.mp ((hmem key).mpr hpackage)
    obtain ⟨hname, hsame⟩ := Prod.mk.inj heq
    obtain rfl : package' = package := hsame
    exact ⟨hmem', hname.symm⟩
  · rintro ⟨hpackage, hname⟩
    have hpair : (item.1, item.2) ∈
        packages.map fun package => (Release.archiveName package, package) := by
      rw [hname]
      exact List.mem_map_of_mem hpackage
    refine ⟨item.1, List.mem_eraseDups.mpr (List.mem_map_of_mem (f := (·.1)) hpair), ?_⟩
    rw [(hmem item.1).mp hpair]
    rfl

end

/-! ## The candidate -/

section

variable {readers : Packages.Readers} {sha : Digest Bytes} {toml : Bytes → Option Preset}
  {tar : Publish.Content → Hash}

/-- The archives of the gate are those of the build. -/
structure Gathered (repr : Value → Text) (w : World) (dist : Release.Dist) : Prop where
  names : ∀ n, n ∈ dist.archives.map (·.1) ↔
    Python.endswith n archiveSuffix = true ∧ (w.dist.entries n).isSome = true
  manifests : ∀ n archive content m, dist.archives.lookup n = some archive →
    w.dist.entries n = some (.archive content) → content.manifest = some m →
      ReadAs repr m archive.value

/-- The makefile serves every package of the matrix. -/
def Faithful (toml : Bytes → Option Preset) (r : Run) : Prop :=
  ∀ packages, matrix toml r.tree = some packages → ∀ a ∈ packages, ∀ packager,
    (r.make a.preset a.variant).packager = some packager → Serves r.tree a packager

/-- The presets bring what the gate wants, and the logs show their kernels. -/
def PresetsReady (readers : Packages.Readers) (toml : Bytes → Option Preset) (t : Tree)
    (dist : Release.Dist) : Prop :=
  ∀ packages, matrix toml t = some packages → ∀ a ∈ packages, LogsShow dist a ∧
    ∃ cfg, (t.file? a.preset).bind readers.toml = some cfg ∧ Wanted cfg a.variant

variable {r : Run} {s : Status} {w : World} {dist : Release.Dist}

/-- Each package has an archive that describes it. -/
theorem archive_of_complete (hfaithful : Faithful toml r)
    (htoml : ∀ content, toml content = (readers.toml content).bind (view readers.repr))
    (h : Complete toml readers sha tar r s w) (hfresh : ∀ item ∈ s.packages, item.reused = false)
    (hgathered : Gathered readers.repr w dist) {packages : List Package}
    (hmatrix : matrix toml r.tree = some packages) :
    ∀ a ∈ packages, ∃ cfg archive, Listed readers r.tree a cfg ∧
      dist.archives.lookup (Release.archiveName a) = some archive ∧
      (PackageReady sha r.tree dist a archive ↔ Wanted cfg a.variant ∧ LogsShow dist a) := by
  obtain ⟨packages', built, hmatrix', hperm, hitems⟩ := h.items
  cases hmatrix.symm.trans hmatrix'
  intro a ha
  obtain ⟨i, hi, hbuilt⟩ := List.mem_iff_getElem.mp (hperm.mem_iff.mpr ha)
  have hi' := hitems.length_eq ▸ hi
  have hrecorded := hitems.get hi hi'
  rw [List.get_eq_getElem, hbuilt] at hrecorded
  obtain ⟨hname, -, content, hentry, -, hmade⟩ := hrecorded
  rw [hname] at hentry
  rw [if_neg (by rw [hfresh _ (List.get_mem _ _)]; exact Bool.false_ne_true)] at hmade
  obtain ⟨packager, p, hpackager, hp, rfl⟩ := hmade
  obtain ⟨cfg, hlisted⟩ := listed_of_matrix htoml hmatrix a ha
  have hdescribes := describes_of_package (hfaithful _ hmatrix a ha packager hpackager) hlisted hp
  have hthere : Release.archiveName a ∈ dist.archives.map (·.1) :=
    (hgathered.names _).mpr ⟨endswith_archiveName a.name, by
      rw [show Release.archiveName a = Publish.archiveName a.name from rfl, hentry]; rfl⟩
  obtain ⟨row, hrow, hkey⟩ := List.mem_map.mp hthere
  obtain ⟨archive, harchive⟩ := Option.isSome_iff_exists.mp
    (List.lookup_isSome_iff.mpr ⟨row, hrow, beq_iff_eq.mpr hkey.symm⟩)
  have hread := hgathered.manifests _ archive _ p.manifest harchive hentry rfl
  exact ⟨cfg, archive, hlisted, harchive, packageReady_iff hdescribes hread⟩

theorem archives_of_items {built : List Package} {items : List Item}
    (h : List.Forall₂ (Recorded readers sha tar r w) built items) :
    items.map (·.archive) = built.map Release.archiveName := by
  induction h with
  | nil => rfl
  | cons hitem _ ih =>
    rw [List.map_cons, List.map_cons, ih]
    exact congrArg (· :: _) hitem.1

/-- The gate finds the archives of the matrix and no other. -/
theorem names_of_complete (h : Complete toml readers sha tar r s w)
    (hgathered : Gathered readers.repr w dist) {packages : List Package}
    (hmatrix : matrix toml r.tree = some packages) {n : Text} :
    n ∈ dist.archives.map (·.1) ↔ n ∈ packages.map Release.archiveName := by
  obtain ⟨packages', built, hmatrix', hperm, hitems⟩ := h.items
  cases hmatrix.symm.trans hmatrix'
  have hsame : n ∈ s.packages.map (·.archive) ↔ n ∈ packages.map Release.archiveName := by
    rw [archives_of_items hitems]
    exact (hperm.map _).mem_iff
  rw [hgathered.names, ← hsame]
  constructor
  · rintro ⟨hends, hthere⟩
    exact (h.archives n hends).mp hthere
  · intro hn
    have hends := Recorded.endswith hitems n hn
    exact ⟨hends, (h.archives n hends).mpr hn⟩

section

variable {decimal : Char → Bool} {lower : Text → Text}
  {manifestOf : Bytes → Option Release.Manifest} {tests : PackageTests.Run}

/-- A build that was not resumed, and tests that came to their end. -/
theorem accepted_iff_of_complete (hfaithful : Faithful toml r)
    (htoml : ∀ content, toml content = (readers.toml content).bind (view readers.repr))
    (hfair : r.Fair toml readers sha) (h : Complete toml readers sha tar r s w)
    (hfresh : ∀ item ∈ s.packages, item.reused = false)
    (hgathered : Gathered readers.repr w dist)
    (hcollected : Collected decimal lower sha manifestOf tests dist) :
    (∃ record, Release.main toml sha true r.tree dist = .ok record) ↔
      (∀ j ∈ tests.completed, (testOne decimal lower sha manifestOf j).1.pass = true) ∧
      (∀ p ∈ runnerFiles, ∃ content, r.tree.file? p = some content ∧
        tests.tree.file? p = some content) ∧
      (∃ source, Release.sourceRecord sha r.tree = .ok source) ∧
      PresetsReady readers toml r.tree dist := by
  have harchives := @archive_of_complete readers sha toml tar r s w dist hfaithful htoml h hfresh
    hgathered
  constructor
  · rintro ⟨record, hrecord⟩
    obtain ⟨hpass, hscripts, hsource, items, hitems, -, hready⟩ :=
      ready_of_accepted hcollected hrecord
    refine ⟨hpass, hscripts, hsource, fun packages hmatrix a ha => ?_⟩
    have hitem : (Release.archiveName a, a) ∈ items :=
      (mem_expected hmatrix (hfair.distinct _ hmatrix) hitems).mpr ⟨ha, rfl⟩
    obtain ⟨cfg, archive, hlisted, harchive, hiff⟩ := harchives hmatrix a ha
    obtain ⟨archive', harchive', hpackage⟩ := hready _ hitem
    cases harchive.symm.trans harchive'
    obtain ⟨hwanted, hlogs⟩ := hiff.mp hpackage
    exact ⟨hlogs, cfg, hlisted.preset, hwanted⟩
  · rintro ⟨hpass, hscripts, ⟨source, hsource⟩, hpresets⟩
    obtain ⟨packages, -, hmatrix, -, -⟩ := h.items
    obtain ⟨items, hitems⟩ : ∃ items, Release.expected toml r.tree = some items := by
      rw [Release.expected, hmatrix]
      exact ⟨_, rfl⟩
    have hmem := fun item => @mem_expected toml r.tree packages items hmatrix
      (hfair.distinct _ hmatrix) hitems item
    apply accepted_of_ready hcollected hpass hscripts hsource hitems
    · intro name
      rw [← hcollected.names, names_of_complete h hgathered hmatrix, List.mem_map, List.mem_map]
      constructor
      · rintro ⟨item, hitem, rfl⟩
        obtain ⟨hpackage, hname⟩ := (hmem item).mp hitem
        exact ⟨item.2, hpackage, hname.symm⟩
      · rintro ⟨a, ha, rfl⟩
        exact ⟨(Release.archiveName a, a), (hmem _).mpr ⟨ha, rfl⟩, rfl⟩
    · intro item hitem
      obtain ⟨hpackage, hname⟩ := (hmem item).mp hitem
      obtain ⟨cfg, archive, hlisted, harchive, hiff⟩ := harchives hmatrix _ hpackage
      obtain ⟨hlogs, cfg', hcfg', hwanted⟩ := hpresets _ hmatrix _ hpackage
      cases hlisted.preset.symm.trans hcfg'
      exact ⟨archive, hname ▸ harchive, hiff.mpr ⟨hwanted, hlogs⟩⟩

/-- After any history of builds, stopped anywhere and started again, whose record
says `pass` with nothing reused, and a run of the tests that came to its end: the
gate accepts exactly when the tests have passed, the scripts that ran them and
the sources it records are there, the presets bring what it wants, and the logs
show the kernels. What it asks of archives, manifests and build inputs is as it
wants it. -/
theorem candidate_ready_iff {int : Text → Option Int} (hgz : int (text "gz") = none)
    (builds : List (Run × Nat)) (hfair : ∀ r ∈ builds.map (·.1), r.Fair toml readers sha)
    (hfaithful : ∀ r ∈ builds.map (·.1), Faithful toml r)
    (htoml : ∀ content, toml content = (readers.toml content).bind (view readers.repr))
    (hw : Crash.history (main toml int readers sha tar) World.empty builds = w)
    (hs : w.result = .whole s) (hpass : s.pass = true)
    (hfresh : ∀ item ∈ s.packages, item.reused = false) (hgathered : Gathered readers.repr w dist)
    (hcollected : Collected decimal lower sha manifestOf tests dist) :
    ∃ r ∈ builds.map (·.1), Complete toml readers sha tar r s w ∧
      ((∃ record, Release.main toml sha true r.tree dist = .ok record) ↔
        (∀ j ∈ tests.completed, (testOne decimal lower sha manifestOf j).1.pass = true) ∧
        (∀ p ∈ runnerFiles, ∃ content, r.tree.file? p = some content ∧
          tests.tree.file? p = some content) ∧
        (∃ source, Release.sourceRecord sha r.tree = .ok source) ∧
        PresetsReady readers toml r.tree dist) := by
  subst hw
  obtain ⟨r, hr, hcomplete⟩ := honest_history hgz builds hfair s hs hpass
  exact ⟨r, hr, hcomplete, accepted_iff_of_complete (hfaithful r hr) htoml (hfair r hr) hcomplete
    hfresh hgathered hcollected⟩

end

end

/-! ## A candidate of one package -/

open Publish (tinyPreset tinyReaders)

/-- Readers that know one preset. -/
def presetReaders : Packages.Readers :=
  { tinyReaders with
    toml := fun content => if content = Release.presetText then some tinyPreset else none }

theorem onePreset_eq (content : Bytes) :
    Release.onePreset content = (presetReaders.toml content).bind (view presetReaders.repr) := by
  have hview : view presetReaders.repr tinyPreset =
      some ⟨text "riscv32", text "6.18.51", none, false⟩ := by decide +kernel
  unfold Release.onePreset presetReaders
  dsimp only
  by_cases hcontent : content = Release.presetText
  · rw [if_pos hcontent, if_pos hcontent, Option.bind_some]
    exact hview.symm
  · rw [if_neg hcontent, if_neg hcontent]
    rfl

/-- One build to its end. -/
def oneBuild : List (Run × Nat) := [(tinyBuild false, 100)]

theorem oneBuild_fair :
    (tinyBuild false).Fair Release.onePreset presetReaders Release.plainSha where
  distinct packages h := by
    cases matrix_builtTree.symm.trans h
    exact List.nodup_singleton _
  named packages h a ha := by
    cases matrix_builtTree.symm.trans h
    cases List.mem_singleton.mp ha
    rintro packager p hpackager hp
    cases hpackager
    have hname : ((Publish.tinyRun Release.builtTree 100).package presetReaders
        Release.plainSha).toOption.map (·.name) = some Release.onePackage.name := by decide +kernel
    rw [hp] at hname
    exact Option.some.inj hname

theorem oneBuild_faithful : Faithful Release.onePreset (tinyBuild false) := by
  intro packages h a ha packager hpackager
  cases matrix_builtTree.symm.trans h
  cases List.mem_singleton.mp ha
  cases hpackager
  refine ⟨rfl, rfl, fun args hargs => ?_⟩
  cases hargs
  rfl

def oneWorld : World :=
  Crash.history (main Release.onePreset digits presetReaders Release.plainSha countFiles)
    World.empty oneBuild

/-- A record that says `pass`, of one package that was made. -/
def freshlyBuilt (saved : Saved) : Bool :=
  match saved with
  | .whole s => s.pass && s.packages.all (!·.reused) &&
      s.packages.map (·.archive) == [Release.archiveName Release.onePackage]
  | _ => false

/-- The manifest of the archive is the one the gate knows. -/
def readAsOne (entry : Option Publish.Entry) : Bool :=
  match entry with
  | some (.archive content) => content.manifest.all fun m =>
      let known := Release.oneArchive.value
      known.preset == m.preset && known.bits == m.bits && known.variant == m.variant.name &&
        known.kernelVersion == m.kernelVersion.str presetReaders.repr &&
        known.kernelHz == m.kernelHz && m.memoryMib.isInt 1024 &&
        known.buildInputs == m.buildInputs
  | _ => false

theorem oneWorld_built : freshlyBuilt oneWorld.result = true := by decide +kernel

theorem oneWorld_readAs :
    readAsOne (oneWorld.dist.entries (Release.archiveName Release.onePackage)) = true := by
  decide +kernel

theorem oneWorld_gathered {s : Status} {r : Run}
    (h : Complete Release.onePreset presetReaders Release.plainSha countFiles r s oneWorld)
    (hnames : s.packages.map (·.archive) = [Release.archiveName Release.onePackage]) :
    Gathered presetReaders.repr oneWorld PackageTests.tinyDist where
  names n := by
    rw [show PackageTests.tinyDist.archives.map (·.1) =
      [Release.archiveName Release.onePackage] from rfl, ← hnames]
    constructor
    · intro hn
      have hends : Python.endswith n archiveSuffix = true := by
        rw [hnames] at hn
        rw [List.mem_singleton.mp hn]
        exact endswith_archiveName _
      exact ⟨hends, (h.archives n hends).mpr hn⟩
    · rintro ⟨hends, hthere⟩
      exact (h.archives n hends).mp hthere
  manifests n archive content m harchive hentry hm := by
    obtain ⟨rfl, rfl⟩ := PackageTests.tinyDist_archives harchive
    have hread := oneWorld_readAs
    rw [hentry, readAsOne, hm] at hread
    simp only [Option.all_some, Bool.and_eq_true, beq_iff_eq] at hread
    obtain ⟨⟨⟨⟨⟨⟨hpreset, hbits⟩, hvariant⟩, hversion⟩, hhz⟩, hram⟩, hinputs⟩ := hread
    exact ⟨hpreset, hbits, hvariant, hversion, hhz, ⟨fun _ => hram, fun _ => rfl⟩,
      hinputs ▸ List.Subset.refl _, hinputs ▸ fun _ => rfl⟩

theorem candidate_ready_iff_one :
    PresetsReady presetReaders Release.onePreset Release.builtTree PackageTests.tinyDist := by
  have hbuilt := oneWorld_built
  unfold freshlyBuilt at hbuilt
  split at hbuilt
  · rename_i s hs
    simp only [Bool.and_eq_true, beq_iff_eq, List.all_eq_true, Bool.not_eq_true'] at hbuilt
    obtain ⟨⟨hpass, hfresh⟩, hnames⟩ := hbuilt
    have hfair : ∀ r ∈ oneBuild.map (·.1),
        r.Fair Release.onePreset presetReaders Release.plainSha := by
      intro r hr
      cases List.mem_singleton.mp hr
      exact oneBuild_fair
    have hfaithful : ∀ r ∈ oneBuild.map (·.1), Faithful Release.onePreset r := by
      intro r hr
      cases List.mem_singleton.mp hr
      exact oneBuild_faithful
    obtain ⟨_, _, hcomplete⟩ := honest_history (by decide) oneBuild hfair s hs hpass
    obtain ⟨r, hr, -, hiff⟩ := candidate_ready_iff (by decide) oneBuild hfair hfaithful onePreset_eq
      rfl hs hpass hfresh (oneWorld_gathered hcomplete hnames) PackageTests.tinyDist_collected
    cases List.mem_singleton.mp hr
    exact (hiff.mp PackageTests.tinyDist_accepted).2.2.2
  · cases hbuilt

end LinuxBuild.ReleaseCandidate
