import LinuxBuild.MakeConfig
import LinuxBuild.Publish

/-!
# Two readers of a preset

`gen-config.py` tells the Makefile what QEMU boots with, the packagers tell the
manifest. Each spells its own defaults.
-/

namespace LinuxBuild.Agreement

open Toml Packages MakeConfig Repository

variable (repr : Value → Text)

/-- The RAM that a boot test of the variant gives QEMU. -/
def qemuMemory (v : Variables) (variant : Variant) : Text :=
  if variant = .buildroot then v.qemuMemBuildroot else v.qemuMem

/-- The archive name of a variant in the Makefile. -/
def makeName (v : Variables) (variant : Variant) : Text :=
  if variant = .buildroot then buildrootReleaseName v else releaseName v

/-- The name a packager gets: between double quotes in a recipe. That of a
distribution package is not handed on. -/
def passedName (v : Variables) (variant : Variant) : Option Text :=
  if variant.isDistro then some (makeName v variant) else inQuotes (makeName v variant)

/-- The Makefile and the manifest say the same of a package. -/
structure Agrees (v : Variables) (preset : Path) (cfg : Preset) (m : Manifest) : Prop where
  memory : qemuMemory v m.variant = m.memoryMib.str repr
  version : v.kernelVersion = m.kernelVersion.str repr
  bits : v.bits = Nat.toDigits 10 m.bits
  name : passedName v m.variant = some (packageName preset cfg m.variant)

/-- The RAM is written as it is recorded. A Buildroot package without a memory
of its own has 1024 in its manifest and what `boot` says in the Makefile. -/
def MemoryReadAlike (cfg : Value) (variant : Variant) : Prop :=
  match variant with
  | .buildroot =>
    match (cfg.item? (text "buildroot")).bind (·.item? (text "memory")) with
    | some m => readBack (m.str repr) = m.str repr
    | none => readBack (((bootMemory cfg).getD (.integer 1024)).str repr) = text "1024"
  | _ => ∀ m, bootMemory cfg = some m → readBack (m.str repr) = m.str repr

/-- Make reads what the packagers read, and the shell hands the name on. -/
structure ReadAlike (cfg : Value) (presetName name : Text) (variant : Variant) : Prop where
  named : presetName ≠ []
  preset : readBack presetName = presetName
  version : ∀ v, (cfg.item? (text "kernel")).bind (·.item? (text "version")) = some v →
    readBack (v.str repr) = v.str repr
  memory : MemoryReadAlike repr cfg variant
  quoted : variant.isDistro = false → inQuotes name = some name

variable {repr}

/-! ## The settings of a preset that is packaged -/

theorem settings_arch_of {cfg : Value} {s : Settings} {name : Text}
    (hs : settings repr cfg = .ok s)
    (hname : (cfg.item? (text "target")).bind (·.item? (text "arch")) = some (.string name)) :
    (name = text "riscv32" ∧ s.arch = rv32) ∨ (name = text "riscv64" ∧ s.arch = rv64) := by
  obtain ⟨arch, harch, hs⟩ := Python.bind_ok hs
  cases hs
  obtain ⟨written, hwritten, hlookup⟩ := archOf_ok harch
  simp only [List.map_cons, List.map_nil] at hwritten
  rw [deepGet_pair (by simp), hname, Option.getD_some] at hwritten
  cases hwritten
  exact lookup_archMap hlookup

theorem settings_bits {cfg : Value} {s : Settings} {bits : Nat}
    (hs : settings repr cfg = .ok s) (hbits : Packages.archBits cfg = some bits) :
    s.arch.bits = bits := by
  obtain ⟨target, htarget, hbits⟩ := Option.bind_eq_some_iff.mp hbits
  obtain ⟨name, hname, hint⟩ := Option.bind_eq_some_iff.mp hbits
  obtain ⟨item, hitem, hstring⟩ := Option.bind_eq_some_iff.mp hname
  obtain rfl := Value.string?_eq hstring
  have hpair : (cfg.item? (text "target")).bind (fun t => t.item? (text "arch")) =
      some (.string name) := Option.bind_eq_some_iff.mpr ⟨target, htarget, hitem⟩
  rcases settings_arch_of hs hpair with ⟨rfl, harch⟩ | ⟨rfl, harch⟩
  · have : Python.int (Repository.archBits ⟨text "riscv32", [], none, false⟩) = some 32 := by decide
    rw [harch]
    exact Option.some.inj (this.symm.trans hint)
  · have : Python.int (Repository.archBits ⟨text "riscv64", [], none, false⟩) = some 64 := by decide
    rw [harch]
    exact Option.some.inj (this.symm.trans hint)

theorem settings_version {cfg : Value} {s : Settings} {v : Value}
    (hs : settings repr cfg = .ok s)
    (hv : (cfg.item? (text "kernel")).bind (·.item? (text "version")) = some v) : s.kver = v := by
  obtain ⟨arch, _, hs⟩ := Python.bind_ok hs
  cases hs
  simp only [List.map_cons, List.map_nil]
  rw [deepGet_pair (by simp), hv, Option.getD_some]

theorem settings_mem {cfg : Value} {s : Settings} (hs : settings repr cfg = .ok s) :
    s.mem = (bootMemory cfg).getD (.integer 1024) := by
  obtain ⟨arch, _, hs⟩ := Python.bind_ok hs
  cases hs
  simp only [List.map_cons, List.map_nil]
  rw [deepGet_pair (by simp)]
  rfl

/-- With a `buildroot` table there is one way to the default. -/
theorem settings_memBuildroot {cfg : Value} {s : Settings} {rows : List (Text × Value)}
    (hs : settings repr cfg = .ok s)
    (hrows : cfg.item? (text "buildroot") = some (.table rows)) :
    s.memBuildroot = (rows.lookup (text "memory")).getD s.mem := by
  obtain ⟨arch, _, hs⟩ := Python.bind_ok hs
  cases hs
  cases cfg with
  | table cfgRows =>
    have hrow : cfgRows.lookup (text "buildroot") = some (.table rows) := hrows
    simp only [List.map_cons, List.map_nil, deepGet, hrow, Option.getD_some]
  | string | integer | float | boolean | moment | array => cases hrows

theorem view_eq {cfg : Value} {v : Preset} (h : view repr cfg = some v) :
    (∃ version, (cfg.item? (text "kernel")).bind (·.item? (text "version")) = some version ∧
      v.kernelVersion = version.str repr) ∧
    (∃ arch, (cfg.item? (text "target")).bind (·.item? (text "arch")) = some (.string arch) ∧
      v.arch = arch) ∧
    v.hasBuildroot = (cfg.item? (text "buildroot")).isSome := by
  obtain ⟨target, htarget, h⟩ := Option.bind_eq_some_iff.mp h
  obtain ⟨arch, harch, h⟩ := Option.bind_eq_some_iff.mp h
  obtain ⟨kernel, hkernel, h⟩ := Option.bind_eq_some_iff.mp h
  obtain ⟨version, hversion, h⟩ := Option.bind_eq_some_iff.mp h
  obtain ⟨value, hvalue, hstring⟩ := Option.bind_eq_some_iff.mp harch
  obtain rfl := Value.string?_eq hstring
  simp only at h
  split at h
  · cases h
    exact ⟨⟨version, Option.bind_eq_some_iff.mpr ⟨kernel, hkernel, hversion⟩, rfl⟩,
      ⟨arch, Option.bind_eq_some_iff.mpr ⟨target, htarget, hvalue⟩, rfl⟩, rfl⟩
  · cases h

/-- The name of a package and the Makefile spell the target alike. -/
theorem view_archBits {cfg : Value} {v : Preset} {s : Settings} (hview : view repr cfg = some v)
    (hs : settings repr cfg = .ok s) : Repository.archBits v = Nat.toDigits 10 s.arch.bits := by
  obtain ⟨_, ⟨arch, harch, rfl⟩, _⟩ := view_eq hview
  unfold Repository.archBits
  rcases settings_arch_of hs harch with ⟨heq, hrow⟩ | ⟨heq, hrow⟩
  · rw [heq, hrow]
    decide
  · rw [heq, hrow]
    decide

/-! ## Agreement -/

theorem readBack_digits {cfg : Value} {s : Settings} (hs : settings repr cfg = .ok s) :
    readBack (Nat.toDigits 10 s.arch.bits) = Nat.toDigits 10 s.arch.bits := by
  rcases settings_arch hs with h | h <;> rw [h] <;> decide

/-- The names agree exactly when make reads that of the preset. -/
theorem makeName_iff {v : Variables} {preset : Text} {variant : Variant} {cfg : Preset}
    {path : Path} (hpath : stem path = preset) (hpreset : v.systemPreset = readBack preset)
    (hbits : v.bits = Repository.archBits cfg) (hversion : v.kernelVersion = cfg.kernelVersion)
    (hdigits : readBack v.bits = v.bits) (hne : v.bits ≠ []) :
    makeName v variant = packageName path cfg variant ↔
      preset ≠ [] ∧ readBack preset = preset := by
  have hempty : readBack [] = [] := rfl
  by_cases hvariant : variant = .buildroot
  · have hpackage : packageName path cfg variant =
        text "linux-riscv-rv" ++ v.bits ++ (text "-" ++ preset) ++ text "-buildroot-v" ++
          v.kernelVersion := by
      rw [packageName, if_neg (by rw [hvariant]; decide), hpath, hbits, hversion]
      simp only [List.append_assoc]
      rfl
    rw [hpackage, makeName, if_pos hvariant, buildrootReleaseName, hpreset]
    simp only [List.append_cancel_right_eq, List.append_cancel_left_eq]
    by_cases hread : readBack preset = []
    · rw [if_pos hread]
      constructor
      · intro h
        cases h
      · rintro ⟨hpresetNe, heq⟩
        exact absurd (heq.symm.trans hread) hpresetNe
    · rw [if_neg hread, List.append_cancel_left_eq]
      exact ⟨fun h => ⟨fun hnil => hread (by rw [hnil, hempty]), h⟩, And.right⟩
  · have hpackage : packageName path cfg variant =
        text "linux-riscv-" ++ preset ++ text "-v" ++ v.kernelVersion := by
      have htiny : variant = .tinyShell ∨ variant.isDistro = true := by
        cases variant with
        | tinyShell => exact .inl rfl
        | buildroot => exact absurd rfl hvariant
        | alpine | debian => exact .inr rfl
      rw [packageName, if_pos htiny, hpath, hversion]
    rw [hpackage, makeName, if_neg hvariant, releaseName, hpreset]
    simp only [List.append_cancel_right_eq, List.append_cancel_left_eq]
    by_cases hread : readBack preset = []
    · rw [if_pos hread]
      constructor
      · rintro rfl
        exact absurd (hdigits.symm.trans hread) hne
      · rintro ⟨hpresetNe, heq⟩
        exact absurd (heq.symm.trans hread) hpresetNe
    · rw [if_neg hread]
      exact ⟨fun h => ⟨fun hnil => hread (by rw [hnil, hempty]), h⟩, And.right⟩

/-- What make reads of a preset's name is no more than the name. -/
theorem makeName_sublist {v : Variables} {preset : Text} {variant : Variant} {cfg : Preset}
    {path : Path} (hpath : stem path = preset) (hpreset : v.systemPreset = readBack preset)
    (hbits : v.bits = Repository.archBits cfg) (hversion : v.kernelVersion = cfg.kernelVersion)
    (hread : readBack preset ≠ [] ∨ variant = .buildroot) (hdistro : variant.isDistro = false) :
    (makeName v variant).Sublist (packageName path cfg variant) := by
  have hsub := readBack_sublist preset
  by_cases hvariant : variant = .buildroot
  · rw [packageName, if_neg (by rw [hvariant]; decide), hpath, ← hbits, ← hversion, makeName,
      if_pos hvariant, buildrootReleaseName, hpreset]
    have hmiddle : (if readBack preset = [] then [] else text "-" ++ readBack preset).Sublist
        (text "-" ++ preset) := by
      split
      · exact List.nil_sublist _
      · exact (List.Sublist.refl _).append hsub
    have hall := (((List.Sublist.refl (text "linux-riscv-rv" ++ v.bits)).append hmiddle).append
      (List.Sublist.refl (text "-buildroot-v"))).append (List.Sublist.refl v.kernelVersion)
    simp only [List.append_assoc] at hall ⊢
    exact hall
  · have htiny : variant = .tinyShell := by
      cases variant with
      | tinyShell => rfl
      | buildroot => exact absurd rfl hvariant
      | alpine | debian => cases hdistro
    rw [packageName, if_pos (.inl htiny), hpath, ← hversion, makeName, if_neg hvariant, releaseName,
      hpreset, if_neg (hread.resolve_right hvariant)]
    exact (((List.Sublist.refl _).append hsub).append (List.Sublist.refl _)).append
      (List.Sublist.refl _)

/-- The shell does not bring back the name of a preset that make has lost. -/
theorem preset_of_passed {v : Variables} {preset : Text} {variant : Variant} {cfg : Preset}
    {path : Path} (hpath : stem path = preset) (hpreset : v.systemPreset = readBack preset)
    {c : Char} {width : Text} (hdigit : v.bits = c :: width) (hc : c.isDigit = true)
    (hplain : (c :: width).all staysQuoted = true) (hdistro : variant.isDistro = false)
    (h : inQuotes (makeName v variant) = some (packageName path cfg variant)) :
    readBack preset ≠ [] ∨ variant = .buildroot := by
  by_contra hnot
  obtain ⟨hnil, hvariant⟩ := not_or.mp hnot
  rw [not_not] at hnil
  have htiny : variant = .tinyShell := by
    cases variant with
    | tinyShell => rfl
    | buildroot => exact absurd rfl hvariant
    | alpine | debian => cases hdistro
  rw [makeName, if_neg hvariant, releaseName, hpreset, if_pos hnil, packageName,
    if_pos (.inl htiny), hpath, List.append_assoc, List.append_assoc,
    List.append_assoc, List.append_assoc, inQuotes_append (by decide)] at h
  obtain ⟨rest, hrest, heq⟩ := Option.map_eq_some_iff.mp h
  have heq := List.append_cancel_left heq
  -- The width begins with a digit, which is not read as nothing.
  rw [hdigit, inQuotes_append hplain] at hrest
  obtain ⟨_, _, rfl⟩ := Option.map_eq_some_iff.mp hrest
  cases preset with
  | nil =>
    obtain rfl : c = '-' := (List.cons.inj heq).1
    cases hc
  | cons d preset =>
    cases (List.cons.inj heq).1
    exact readBack_digit hc _ hnil

/-- The name that is handed on is the package's exactly when make reads the name of
the preset and the shell changes nothing. -/
theorem passedName_iff {v : Variables} {preset : Text} {variant : Variant} {cfg : Preset}
    {path : Path} (hpath : stem path = preset) (hpreset : v.systemPreset = readBack preset)
    (hbits : v.bits = Repository.archBits cfg) (hversion : v.kernelVersion = cfg.kernelVersion)
    (hdigits : readBack v.bits = v.bits) (hwidth : v.bits = text "32" ∨ v.bits = text "64") :
    passedName v variant = some (packageName path cfg variant) ↔
      (preset ≠ [] ∧ readBack preset = preset) ∧ (variant.isDistro = false →
        inQuotes (packageName path cfg variant) = some (packageName path cfg variant)) := by
  obtain ⟨c, width, hdigit, hc, hplain⟩ : ∃ c width, v.bits = c :: width ∧ c.isDigit = true ∧
      (c :: width).all staysQuoted = true := by
    rcases hwidth with h | h
    · exact ⟨'3', ['2'], h, rfl, by decide⟩
    · exact ⟨'6', ['4'], h, rfl, by decide⟩
  have hne : v.bits ≠ [] := by
    rw [hdigit]
    exact List.cons_ne_nil c width
  have hmake : makeName v variant = packageName path cfg variant ↔
      preset ≠ [] ∧ readBack preset = preset :=
    makeName_iff hpath hpreset hbits hversion hdigits hne
  by_cases hdistro : variant.isDistro = true
  · rw [passedName, if_pos hdistro, Option.some.injEq, hmake, hdistro]
    simp
  · rw [passedName, if_neg hdistro]
    constructor
    · intro h
      have hread := preset_of_passed hpath hpreset hdigit hc hplain (by simpa using hdistro) h
      have hsame : makeName v variant = packageName path cfg variant :=
        (makeName_sublist hpath hpreset hbits hversion hread (by simpa using hdistro)).antisymm
          (inQuotes_sublist h)
      rw [hsame] at h
      exact ⟨hmake.mp hsame, fun _ => h⟩
    · rintro ⟨hnames, hquoted⟩
      rw [hmake.mpr hnames]
      exact hquoted (by simpa using hdistro)

/-- The RAM agrees exactly when it is read alike. -/
theorem memory_iff {cfg : Value} {s : Settings} {variant : Variant} {ram : Value} {v : Variables}
    (hs : settings repr cfg = .ok s) (hram : memory cfg variant = some ram)
    (hbuildroot : variant = .buildroot → (cfg.item? (text "buildroot")).isSome = true)
    (hmem : qemuMemory v variant = readBack (ramText repr s (variant == .buildroot))) :
    qemuMemory v variant = ram.str repr ↔ MemoryReadAlike repr cfg variant := by
  rw [hmem]
  by_cases hvariant : variant = .buildroot
  · subst hvariant
    obtain ⟨table, htable⟩ := Option.isSome_iff_exists.mp (hbuildroot rfl)
    rw [memory, if_pos rfl, buildrootMemory, htable, Option.getD_some] at hram
    cases table with
    | table rows =>
      cases hram
      have hitem : (cfg.item? (text "buildroot")).bind (fun t => t.item? (text "memory")) =
          rows.lookup (text "memory") := by
        rw [htable]
        rfl
      rw [ramText, if_pos (beq_self_eq_true _), settings_memBuildroot hs htable, settings_mem hs, MemoryReadAlike,
        hitem]
      cases rows.lookup (text "memory") with
      | some m => rfl
      | none => rfl
    | string | integer | float | boolean | moment | array => cases hram
  · rw [memory, if_neg hvariant] at hram
    have hother : MemoryReadAlike repr cfg variant ↔
        ∀ m, bootMemory cfg = some m → readBack (m.str repr) = m.str repr := by
      cases variant with
      | buildroot => exact absurd rfl hvariant
      | tinyShell | alpine | debian => rfl
    rw [ramText, if_neg (by simpa using hvariant), settings_mem hs, hother, hram, Option.getD_some]
    simp only [Option.some.injEq, forall_eq']

theorem hasBuildroot_of_mem {v : Preset} (h : Variant.buildroot ∈ variants v) :
    v.hasBuildroot = true := by
  unfold variants at h
  split at h
  · simp at h
  split at h
  · simp at h
  · cases hb : v.hasBuildroot with
    | true => rfl
    | false => simp [hb] at h

theorem settings_of_genMakeConfig {cfg : Value} {presetName presetPath file : Text}
    (h : genMakeConfig repr cfg presetName presetPath = .ok file) :
    ∃ s, settings repr cfg = .ok s := by
  obtain ⟨lines, hlines, _⟩ := Python.bind_ok h
  obtain ⟨s, hs, _⟩ := Python.bind_ok hlines
  exact ⟨s, hs⟩

/-- For a preset that `gen-config.py` accepts and that make can read, and a package
of one of its variants: the Makefile and the manifest agree exactly when what they
disagree in by default is read alike. -/
theorem preset_readers_agree_iff {expand : Expansion} (hexpand : Literal expand)
    {readers : Readers} {sha : Digest Bytes} {w : Surroundings}
    {job : Job} {p : Staged} {cfg : Value} {v : Preset} {presetPath file : Text}
    (hcfg : (w.tree.file? job.preset).bind readers.toml = some cfg)
    (hfile : genMakeConfig readers.repr cfg (stem job.preset) presetPath = .ok file)
    (hlegible : ∀ s, settings readers.repr cfg = .ok s → Legible readers.repr expand s
      (stem job.preset) presetPath file (p.manifest.variant == .buildroot))
    (hpackage : job.package readers sha w = .ok p) (hview : view readers.repr cfg = some v)
    (hvariant : p.manifest.variant ∈ variants v) :
    (∃ vars, included expand file = some vars ∧
        Agrees readers.repr vars job.preset v p.manifest) ↔
      ReadAlike readers.repr cfg (stem job.preset)
        (packageName job.preset v p.manifest.variant) p.manifest.variant := by
  obtain ⟨s, hs⟩ := settings_of_genMakeConfig hfile
  obtain ⟨vars, hincluded, hgiven⟩ := included_genMakeConfig hexpand hs hfile (hlegible s hs)
  have hreads := package_reads hcfg hpackage
  have hbits := settings_bits hs hreads.bits
  have hkver := settings_version hs hreads.version
  obtain ⟨⟨version, hversion, hviewVersion⟩, _, hviewBuildroot⟩ := view_eq hview
  have hsame : version = p.manifest.kernelVersion :=
    Option.some.inj (hversion.symm.trans hreads.version)
  have hmemory := memory_iff (v := vars) hs hreads.memory
    (fun hbuildroot => hviewBuildroot ▸ hasBuildroot_of_mem (hbuildroot ▸ hvariant)) (by
      rw [← hgiven.memory, qemuMemory]
      simp only [beq_iff_eq])
  have hname : vars.kernelVersion = v.kernelVersion →
      (passedName vars p.manifest.variant = some (packageName job.preset v p.manifest.variant) ↔
        (stem job.preset ≠ [] ∧ readBack (stem job.preset) = stem job.preset) ∧
          (p.manifest.variant.isDistro = false →
            inQuotes (packageName job.preset v p.manifest.variant) =
              some (packageName job.preset v p.manifest.variant))) := by
    intro hkernel
    apply passedName_iff rfl hgiven.preset _ hkernel
    · rw [hgiven.bits]
      exact readBack_digits hs
    · rw [hgiven.bits]
      rcases settings_arch hs with h | h <;> rw [h] <;> decide
    · rw [hgiven.bits, view_archBits hview hs]
  have hversionText : vars.kernelVersion =
      readBack (p.manifest.kernelVersion.str readers.repr) := by
    rw [hgiven.version, hkver]
  constructor
  · rintro ⟨_, hvars, h⟩
    cases hincluded.symm.trans hvars
    obtain ⟨hnames, hquoted⟩ := (hname (by rw [h.version, hviewVersion, hsame])).mp h.name
    refine ⟨hnames.1, hnames.2, ?_, hmemory.mp h.memory, hquoted⟩
    intro u hu
    obtain rfl := Option.some.inj (hreads.version.symm.trans hu)
    rw [← hversionText, h.version]
  · intro h
    have hkernel : vars.kernelVersion = p.manifest.kernelVersion.str readers.repr := by
      rw [hversionText, h.version _ hreads.version]
    refine ⟨vars, hincluded, hmemory.mpr h.memory, hkernel, by rw [hgiven.bits, hbits], ?_⟩
    exact (hname (by rw [hkernel, hviewVersion, hsame])).mpr ⟨⟨h.named, h.preset⟩, h.quoted⟩

/-! ## Packages of two presets -/

/-- Make, as far as texts without a dollar need it. -/
def plainMake : Expansion := fun defs written =>
  if '$' ∈ written then none else some (defs, argument written)

theorem literal_plainMake : Literal plainMake := fun _ _ h => if_neg h

theorem quiet_of_literal {expand : Expansion} (h : Literal expand) {written : Text}
    (hplain : '$' ∉ written) (names : List Text) : Quiet expand names written :=
  fun defs => ⟨defs, argument written, h defs written hplain, fun _ _ => rfl⟩

/-- A preset of which every text is plain. -/
def AllPlain (repr : Value → Text) (s : Settings) (presetName presetPath file : Text) : Prop :=
  (∀ t ∈ writtenTexts repr s presetName presetPath, OneLine t ∧ Plain t) ∧
    ∀ d ∈ definitions file, '$' ∉ d.2

instance (repr : Value → Text) (s : Settings) (presetName presetPath file : Text) :
    Decidable (AllPlain repr s presetName presetPath file) :=
  inferInstanceAs (Decidable (_ ∧ _))

theorem AllPlain.legible {repr : Value → Text} {s : Settings} {presetName presetPath file : Text}
    {expand : Expansion} (h : AllPlain repr s presetName presetPath file) (hexpand : Literal expand)
    (buildroot : Bool) : Legible repr expand s presetName presetPath file buildroot := by
  have hplain : ∀ t ∈ writtenTexts repr s presetName presetPath, Plain t := fun t ht => (h.1 t ht).2
  refine ⟨fun t ht => (h.1 t ht).1, ?_, (hplain _ (by simp [writtenTexts])).2,
    fun d hd _ => quiet_of_literal hexpand (h.2 d hd) _⟩
  simp only [List.forall_mem_cons]
  refine ⟨hplain _ (by simp [writtenTexts]), hplain _ (by simp [writtenTexts]), hplain _ ?_,
    List.forall_mem_nil _⟩
  cases buildroot <;> simp [writtenTexts, ramText]

theorem allPlain_of_settings {repr : Value → Text} {cfg : Value} {presetName presetPath file : Text}
    (h : ((settings repr cfg).toOption.map fun s =>
      decide (AllPlain repr s presetName presetPath file)) = some true) :
    ∀ s, settings repr cfg = .ok s → AllPlain repr s presetName presetPath file := by
  intro s hs
  rw [hs] at h
  exact of_decide_eq_true (Option.some.inj h)

def presetFile : Text := text "/configs/qemu-rv32.toml"

/-- What `make configure` writes for a preset of the example. -/
def configOf (cfg : Value) : Text :=
  (genMakeConfig Publish.tinyReaders.repr cfg (stem Release.presetPath) presetFile).toOption.getD []

def tinyView : Preset := ⟨text "riscv32", text "6.18.51", none, false⟩

def tinyJob : Job := (Publish.tinyRun Release.builtTree 0).job

def tinySurroundings : Surroundings := (Publish.tinyRun Release.builtTree 0).surroundings

/-- A packager that succeeds has a package. -/
theorem package_of_variant {readers : Readers} {sha : Digest Bytes} {w : Surroundings} {job : Job}
    {variant : Variant}
    (h : (job.package readers sha w).toOption.map (·.manifest.variant) = some variant) :
    ∃ p, job.package readers sha w = .ok p ∧ p.manifest.variant = variant := by
  cases hresult : job.package readers sha w with
  | error e =>
    rw [hresult] at h
    cases h
  | ok p =>
    rw [hresult] at h
    exact ⟨p, rfl, Option.some.inj h⟩

/-- The tiny shell package of a preset with its memory under `boot`. -/
theorem tiny_readers_agree :
    ∃ p, tinyJob.package Publish.tinyReaders Release.plainSha tinySurroundings = .ok p ∧
      ∃ vars, included plainMake (configOf Publish.tinyPreset) = some vars ∧
        Agrees Publish.tinyReaders.repr vars Release.presetPath tinyView p.manifest := by
  obtain ⟨p, hpackage, hvariant⟩ : ∃ p,
      tinyJob.package Publish.tinyReaders Release.plainSha tinySurroundings = .ok p ∧
        p.manifest.variant = .tinyShell := package_of_variant (by decide +kernel)
  have hcfg : (tinySurroundings.tree.file? tinyJob.preset).bind Publish.tinyReaders.toml =
      some Publish.tinyPreset := rfl
  have hfile : genMakeConfig Publish.tinyReaders.repr Publish.tinyPreset (stem tinyJob.preset)
      presetFile = .ok (configOf Publish.tinyPreset) := Python.ok_getD (by decide +kernel) _
  have hview : view Publish.tinyReaders.repr Publish.tinyPreset = some tinyView := by
    decide +kernel
  have hplain : ∀ s, settings Publish.tinyReaders.repr Publish.tinyPreset = .ok s →
      AllPlain Publish.tinyReaders.repr s (stem tinyJob.preset) presetFile
        (configOf Publish.tinyPreset) := allPlain_of_settings (by decide +kernel)
  refine ⟨p, hpackage, (preset_readers_agree_iff literal_plainMake hcfg hfile
    (fun s hs => (hplain s hs).legible literal_plainMake _) hpackage hview
      (by rw [hvariant]; decide +kernel)).mpr ?_⟩
  rw [hvariant]
  refine ⟨by decide +kernel, by decide +kernel, ?_, ?_, fun _ => by decide +kernel⟩
  · intro version hversion
    obtain rfl : Value.string (text "6.18.51") = version := Option.some.inj hversion
    decide
  · intro m hm
    obtain rfl : Value.integer 1024 = m := Option.some.inj hm
    decide

/-- A preset that gives QEMU 512 MiB, and its Buildroot no memory of its own. -/
def smallPreset : Value :=
  .table [(text "target", .table [(text "arch", .string (text "riscv32"))]),
    (text "kernel", .table [(text "version", .string (text "6.18.51")),
      (text "config", .table [(text "HZ", .integer 100)])]),
    (text "boot", .table [(text "memory", .integer 512)]),
    (text "buildroot", .table [(text "fpu", .boolean true)])]

def smallView : Preset := ⟨text "riscv32", text "6.18.51", none, true⟩

def smallReaders : Readers :=
  { Publish.tinyReaders with
    toml := fun _ => some smallPreset
    rootfsRecord := fun _ => some ⟨some 2, [text "CONFIG_ASH"], Release.plainSha.hash []⟩ }

def smallSurroundings : Surroundings :=
  ⟨(rootfsManifest 32, .file []) :: Release.builtTree, [], [], 0⟩

def smallJob : Job :=
  .artifacts ⟨text "linux-riscv-rv32-qemu-rv32-buildroot-v6.18.51",
    { Publish.tinyKernel with
      config := Publish.tinyKernel.config ++ ascii "CONFIG_FPU=y\nCONFIG_FUTEX=y\n" },
    ⟨Publish.tinyImage, [], Publish.tinyImage⟩, [], Release.presetPath, .buildroot,
    text "rv32imafdc_zicntr_zicsr_zifencei", text "ilp32d", 0x3f00000⟩

/-- QEMU gets 512 MiB, and the manifest of the Buildroot package says 1024. -/
theorem buildroot_memory_differs :
    ¬ ∀ (expand : Expansion) (w : Surroundings) (job : Job) (p : Staged) (cfg : Value)
      (v : Preset) (presetPath file : Text), Literal expand →
      (w.tree.file? job.preset).bind smallReaders.toml = some cfg →
      genMakeConfig smallReaders.repr cfg (stem job.preset) presetPath = .ok file →
      job.package smallReaders Release.plainSha w = .ok p →
      view smallReaders.repr cfg = some v → p.manifest.variant ∈ variants v →
      ∃ vars, included expand file = some vars ∧
        Agrees smallReaders.repr vars job.preset v p.manifest := by
  intro h
  obtain ⟨p, hpackage, hvariant⟩ : ∃ p,
      smallJob.package smallReaders Release.plainSha smallSurroundings = .ok p ∧
        p.manifest.variant = .buildroot := package_of_variant (by decide +kernel)
  have hcfg : (smallSurroundings.tree.file? smallJob.preset).bind smallReaders.toml =
      some smallPreset := rfl
  have hfile : genMakeConfig smallReaders.repr smallPreset (stem smallJob.preset) presetFile =
      .ok (configOf smallPreset) := Python.ok_getD (by decide +kernel) _
  have hview : view smallReaders.repr smallPreset = some smallView := by decide +kernel
  obtain ⟨vars, hvars, hagrees⟩ := h plainMake _ _ p _ _ _ _ literal_plainMake hcfg hfile hpackage
    hview (by rw [hvariant]; decide +kernel)
  have hmemory := hagrees.memory
  have hqemu : vars.qemuMemBuildroot = text "512" := by
    have hread : (included plainMake (configOf smallPreset)).map (·.qemuMemBuildroot) =
        some (text "512") := by decide +kernel
    rw [hvars] at hread
    exact Option.some.inj hread
  have hram := (package_reads hcfg hpackage).memory
  rw [hvariant] at hmemory hram
  obtain hram : Value.integer 1024 = p.manifest.memoryMib := Option.some.inj hram
  rw [qemuMemory, if_pos rfl, hqemu, ← hram] at hmemory
  revert hmemory
  decide

end LinuxBuild.Agreement
