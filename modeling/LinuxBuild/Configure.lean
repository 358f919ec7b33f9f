import LinuxBuild.ConfigFiles
import LinuxBuild.Staged

/-!
# `gen-config.py`

`main` renders and writes six files in turn. A document that a later renderer
refuses leaves the earlier files new and the later ones old.
-/

namespace LinuxBuild.Configure

open Toml MakeConfig Staged
open Python (isOk_bind isOk_iff isOk_bind_pure)

inductive ConfigFile
  | mk
  | kernel
  | kernelMinimal
  | kernelBuildroot
  | kernelDistro
  | buildroot
  deriving DecidableEq

def ConfigFile.name : ConfigFile → Text
  | .mk => text ".config.mk"
  | .kernel => text ".config.kernel"
  | .kernelMinimal => text ".config.kernel.minimal"
  | .kernelBuildroot => text ".config.kernel.buildroot"
  | .kernelDistro => text ".config.kernel.distro"
  | .buildroot => text ".config.buildroot"

/-- The path of the document as it is given, its stem, and the path resolved. -/
structure Preset where
  systemToml : Text
  name : Text
  resolved : Text

/-- In the order of `main`. -/
def ConfigFile.all : List ConfigFile :=
  [.mk, .kernel, .kernelMinimal, .kernelBuildroot, .kernelDistro, .buildroot]

section
variable (host : Host) (cfg : Value)

/-- `"buildroot" in cfg`. -/
def hasBuildroot : Bool := (cfg.item? (text "buildroot")).isSome

/-- Without a word on Buildroot a stale file is removed. -/
def render (preset : Preset) : ConfigFile → Except Refusal (Option Text)
  | .mk => return some (← makeConfig host preset.name preset.resolved cfg)
  | .kernel => return some (← genKernelConfig host cfg)
  | .kernelMinimal => return some (← genVariantKernelConfig host cfg .minimal)
  | .kernelBuildroot => return some (← genVariantKernelConfig host cfg .buildroot)
  | .kernelDistro => return some (← genVariantKernelConfig host cfg .distro)
  | .buildroot =>
    if hasBuildroot cfg then do return some (← genBuildrootConfig host cfg) else .ok none

/-- `ARCH_MAP.get(arch, {})`. -/
def archRow (arch : Value) : Except Refusal (Option Arch) :=
  match arch with
  | .string s => .ok (archMap.lookup s)
  | .array _ | .table _ => .error .raised
  | _ => .ok none

/-- `print_summary`; `path` is where a file is. -/
def printSummary (path : ConfigFile → Text) : Except Refusal (List Text) := do
  let arch := deepGet (.string (text "?")) cfg [text "target", text "arch"]
  let kver ← shown host (deepGet (.string (text "?")) cfg [text "kernel", text "version"])
  let minimalFpu := (deepGet (.boolean false) cfg [text "minimal", text "fpu"]).truth
  let buildrootFpu := (deepGet (.boolean true) cfg [text "buildroot", text "fpu"]).truth
  let row ← archRow arch
  let bits := row.elim (text "?") fun row => Nat.toDigits 10 row.bits
  let isa (fpu : Bool) := row.elim (text "?") fun row => if fpu then row.fpuIsa else row.nofpuIsa
  let state (fpu : Bool) := text " (FPU=" ++ (if fpu then text "on" else text "off") ++ text ")"
  let target := text "  Target:     " ++ (← shown host arch) ++ text " (rv" ++ bits ++ text ")"
  let distro := (get? cfg [text "rootfs", text "type"]).bind Value.string?
  if distro = some (text "alpine") ∨ distro = some (text "debian") then
    return [target,
      text "  Userspace:  " ++ distro.getD [] ++ text ", RV64GC/lp64d, persistent ext4",
      text "  Kernel:     " ++ kver,
      text "  Generated:  " ++ path .mk ++ text ", " ++ path .kernel ++ text ", " ++
        path .kernelDistro]
  let packages ← packageNames (includes cfg)
  return [target,
      text "  Minimal:    " ++ isa minimalFpu ++ state minimalFpu,
      text "  Buildroot:  " ++ isa buildrootFpu ++ state buildrootFpu,
      text "  Kernel:     " ++ kver] ++
    (if (includes cfg).truth then [text "  Packages:   " ++ Python.join (text ", ") packages]
     else []) ++
    [text "  Generated:  " ++ path .mk, text "              " ++ path .kernel,
      text "              " ++ path .kernelMinimal, text "              " ++ path .kernelBuildroot] ++
    (if hasBuildroot cfg then [text "              " ++ path .buildroot] else [])

/-- `main` on a parsed document. -/
def main (preset : Preset) (path : ConfigFile → Text) (dir : Dir ConfigFile Text) :
    Except Refusal (List Text) × Dir ConfigFile Text :=
  let (written, dir) := run (render host cfg preset) ConfigFile.all dir
  (do
    let _ ← written
    let summary ← printSummary host cfg path
    return (text "✓ Configuration generated from " ++ preset.systemToml) :: summary, dir)

/-- The document is one that the file can be rendered from. -/
def Accepts : ConfigFile → Prop
  | .mk => MakeAccepts host cfg
  | .kernel => TableAccepts host (userConfig cfg)
  | .kernelMinimal => TableAccepts host (variantConfig cfg .minimal)
  | .kernelBuildroot => TableAccepts host (variantConfig cfg .buildroot)
  | .kernelDistro => TableAccepts host (variantConfig cfg .distro)
  | .buildroot => hasBuildroot cfg = true → ShellAccepts (shell? cfg) ∧
      PackagesAccepts (includes cfg) ∧ PasswordAccepts host (rootPassword? cfg)

end

variable {host : Host} {cfg : Value} {preset : Preset} {path : ConfigFile → Text}

/-! ## What can be rendered -/

theorem isOk_render {file : ConfigFile} :
    (render host cfg preset file).isOk = true ↔ Accepts host cfg file := by
  cases file with
  | mk => exact isOk_bind_pure.trans isOk_makeConfig
  | kernel => exact isOk_bind_pure.trans isOk_genKernelConfig
  | kernelMinimal | kernelBuildroot | kernelDistro =>
    exact isOk_bind_pure.trans isOk_genVariantKernelConfig
  | buildroot =>
    rw [render, Accepts]
    split
    next h =>
      rw [isOk_bind_pure, isOk_genBuildrootConfig]
      exact ⟨fun haccepts _ => haccepts, fun haccepts => haccepts h⟩
    next h => exact ⟨fun _ h' => absurd h' h, fun _ => rfl⟩

theorem mem_all (file : ConfigFile) : file ∈ ConfigFile.all := by
  cases file <;> decide

theorem nodup_all : ConfigFile.all.Nodup := by decide

/-- What a key has under one default is, under another, that or the other default. -/
theorem deepGet_default (cfg one other : Value) (hone : ∀ rows, one ≠ .table rows)
    (hother : ∀ rows, other ≠ .table rows) (k key : Text) :
    deepGet other cfg [k, key] = other ∨
      deepGet other cfg [k, key] = deepGet one cfg [k, key] := by
  rw [deepGet_pair hone, deepGet_pair hother]
  cases (cfg.item? k).bind fun inner => inner.item? key with
  | none => exact .inl rfl
  | some v => exact .inr rfl

theorem shows_string (s : Text) : host.shows (.string s) = true := by
  rw [Host.shows] <;> simp

theorem includes_of_not_hasBuildroot (h : ¬ hasBuildroot cfg = true) :
    includes cfg = .array [] := by
  rw [hasBuildroot, Bool.not_eq_true, Option.isSome_eq_false_iff, Option.isNone_iff_eq_none] at h
  cases cfg with
  | table rows =>
    have hlookup : rows.lookup (text "buildroot") = none := h
    rw [includes, deepGet, hlookup]
    rfl
  | string | integer | float | boolean | moment | array => rfl

/-- The summary shows nothing that was not rendered before. -/
theorem isOk_printSummary (h : ∀ file, Accepts host cfg file) :
    (printSummary host cfg path).isOk = true := by
  have hmake : MakeAccepts host cfg := h .mk
  have hkver : host.shows
      (deepGet (.string (text "?")) cfg [text "kernel", text "version"]) = true := by
    rcases deepGet_default cfg (.string (text "6.18.51")) (.string (text "?")) nofun nofun
      (text "kernel") (text "version") with heq | heq
    · rw [heq, shows_string]
    · rw [heq]
      exact hmake.shows _ (by simp [shownByMake])
  have harch : ∃ s, deepGet (.string (text "?")) cfg [text "target", text "arch"] = .string s := by
    rcases deepGet_default cfg (.string (text "riscv64")) (.string (text "?")) nofun nofun
      (text "target") (text "arch") with heq | heq
    · exact ⟨_, heq⟩
    · rw [heq]
      exact hmake.arch.elim (fun h => ⟨_, h⟩) fun h => ⟨_, h⟩
  have hpackages : PackagesAccepts (includes cfg) := by
    by_cases hhas : hasBuildroot cfg = true
    · exact ((h .buildroot) hhas).2.1
    · rw [includes_of_not_hasBuildroot hhas]
      exact fun htruth => nomatch htruth
  obtain ⟨arch, harch⟩ := harch
  obtain ⟨kver, hkver⟩ := isOk_iff.mp (isOk_shown.mpr hkver)
  obtain ⟨packages, hpackages⟩ := isOk_iff.mp (isOk_packageNames.mpr hpackages)
  have hshown : shown host (.string arch) = .ok arch := by
    rw [shown, if_pos (shows_string arch)]
    rfl
  rw [printSummary, hkver, harch]
  simp only [archRow, hshown, hpackages, bind, Except.bind]
  split <;> rfl

/-! ## All or nothing -/

theorem run_completes_iff (host : Host) (cfg : Value) (preset : Preset)
    (dir : Dir ConfigFile Text) :
    (run (render host cfg preset) ConfigFile.all dir).1 = .ok () ↔
      ∀ file, Accepts host cfg file := by
  rw [run_ok_iff]
  exact ⟨fun h file => isOk_render.mp (h file (mem_all file)),
    fun h file _ => isOk_render.mpr (h file)⟩

theorem isOk_main (dir : Dir ConfigFile Text) :
    (main host cfg preset path dir).1.isOk = true ↔ ∀ file, Accepts host cfg file := by
  rw [main, isOk_bind]
  constructor
  · rintro ⟨_, h, -⟩
    exact (run_completes_iff host cfg preset dir).mp h
  · intro h
    exact ⟨(), (run_completes_iff host cfg preset dir).mpr h, isOk_bind_pure.mpr (isOk_printSummary h)⟩

/-- A run that completes leaves the files of its document, whatever was there; one that fails
leaves what was there. -/
structure AllOrNothing (host : Host) (cfg : Value) (preset : Preset) (path : ConfigFile → Text)
    (dir : Dir ConfigFile Text) : Prop where
  completes : (main host cfg preset path dir).1.isOk = true →
    (∀ other, main host cfg preset path other = main host cfg preset path dir) ∧
    ((main host cfg preset path dir).2 .buildroot = none ↔
      ¬ ∃ rows, cfg.item? (text "buildroot") = some (.table rows))
  fails : (main host cfg preset path dir).1.isOk = false →
    (main host cfg preset path dir).2 = dir

/-- The files that are rendered before the first one that is refused. -/
theorem mem_rendered_iff {file : ConfigFile} :
    file ∈ rendered (render host cfg preset) ConfigFile.all ↔
      ∃ front, front <+: ConfigFile.all ∧ (∀ f ∈ front, Accepts host cfg f) ∧ file ∈ front := by
  constructor
  · intro hfile
    refine ⟨_, List.takeWhile_prefix _, ?_, hfile⟩
    intro f hf
    exact isOk_render.mp
      (List.mem_takeWhile_imp (p := fun file => (render host cfg preset file).isOk) hf)
  · rintro ⟨front, ⟨back, hall⟩, haccepts, hfile⟩
    rw [rendered, ← hall, List.takeWhile_append_of_pos fun f hf => isOk_render.mpr (haccepts f hf)]
    exact List.mem_append_left _ hfile

theorem main_other (h : ∀ file, Accepts host cfg file) (dir other : Dir ConfigFile Text) :
    main host cfg preset path other = main host cfg preset path dir := by
  have hother := (run_completes_iff host cfg preset other).mpr h
  have hdir := (run_completes_iff host cfg preset dir).mpr h
  have hfiles : run (render host cfg preset) ConfigFile.all other =
      run (render host cfg preset) ConfigFile.all dir := by
    apply Prod.ext
    · rw [hother, hdir]
    · funext file
      have hheld := run_holds_of_ok nodup_all hother (mem_all file)
      rw [Holds, run_holds_of_ok nodup_all hdir (mem_all file)] at hheld
      exact (Except.ok.inj hheld).symm
  rw [main, hfiles, main]

theorem main_buildroot (h : ∀ file, Accepts host cfg file) (dir : Dir ConfigFile Text) :
    (main host cfg preset path dir).2 .buildroot = none ↔ hasBuildroot cfg = false := by
  have hholds : render host cfg preset .buildroot =
      .ok ((main host cfg preset path dir).2 .buildroot) :=
    run_holds_of_ok nodup_all ((run_completes_iff host cfg preset dir).mpr h) (mem_all .buildroot)
  rw [render] at hholds
  split at hholds
  next hhas =>
    obtain ⟨file, -, hfile⟩ := Python.bind_ok hholds
    rw [← Except.ok.inj hfile, hhas]
    exact ⟨fun h => (nomatch h), fun h => (nomatch h)⟩
  next hhas =>
    rw [← Except.ok.inj hholds]
    exact ⟨fun _ => Bool.not_eq_true _ ▸ hhas, fun _ => rfl⟩

/-- A refused document changes nothing where the files up to the refusal were as rendered. -/
theorem main_unchanged_iff (dir : Dir ConfigFile Text) :
    (main host cfg preset path dir).2 = dir ↔
      ∀ front, front <+: ConfigFile.all → (∀ f ∈ front, Accepts host cfg f) →
        ∀ f ∈ front, render host cfg preset f = .ok (dir f) := by
  have hrun : (main host cfg preset path dir).2 = dir ↔ _ := run_unchanged_iff nodup_all dir
  rw [hrun]
  constructor
  · intro h front hfront haccepts f hf
    exact h f (mem_rendered_iff.mpr ⟨front, hfront, haccepts, hf⟩)
  · intro h f hf
    obtain ⟨front, hfront, haccepts, hf⟩ := mem_rendered_iff.mp hf
    exact h front hfront haccepts f hf

theorem hasBuildroot_table_iff : (hasBuildroot cfg = false ↔
    ¬ ∃ rows, cfg.item? (text "buildroot") = some (.table rows)) ↔
      ∀ v, cfg.item? (text "buildroot") = some v → ∃ rows, v = .table rows := by
  rw [hasBuildroot]
  cases cfg.item? (text "buildroot") with
  | none => simp
  | some v => simp

/-- All or nothing holds when `buildroot` is a table in every document that is rendered, and a
refused one finds the files up to the refusal as they are rendered from it. -/
theorem allOrNothing_iff (host : Host) (cfg : Value) (preset : Preset) (path : ConfigFile → Text)
    (dir : Dir ConfigFile Text) :
    AllOrNothing host cfg preset path dir ↔
      ((∀ file, Accepts host cfg file) →
        ∀ v, cfg.item? (text "buildroot") = some v → ∃ rows, v = .table rows) ∧
      ((∃ file, ¬ Accepts host cfg file) →
        ∀ front, front <+: ConfigFile.all → (∀ f ∈ front, Accepts host cfg f) →
          ∀ f ∈ front, render host cfg preset f = .ok (dir f)) := by
  have hfails : (∃ file, ¬ Accepts host cfg file) ↔
      (main host cfg preset path dir).1.isOk = false := by
    rw [← not_forall, ← isOk_main dir, Bool.not_eq_true]
  rw [hfails]
  constructor
  · intro h
    constructor
    · intro haccepts
      rw [← hasBuildroot_table_iff, ← main_buildroot haccepts dir]
      exact (h.completes ((isOk_main dir).mpr haccepts)).2
    · intro hfailed
      rw [← main_unchanged_iff]
      exact h.fails hfailed
  · rintro ⟨hbuildroot, hrefused⟩
    constructor
    · intro hok
      have haccepts := (isOk_main dir).mp hok
      constructor
      · exact main_other haccepts dir
      · rw [main_buildroot haccepts dir, hasBuildroot_table_iff]
        exact hbuildroot haccepts
    · intro hfailed
      rw [main_unchanged_iff]
      exact hrefused hfailed

/-! ## A directory of two presets -/

def plainHost : Host := ⟨fun _ => [], 4300, fun c => [c.toUpper], text "/src/rootfs"⟩

/-- `[target]` with `arch = "riscv32"`. -/
def rv32Document : Value :=
  .table [(text "target", .table [(text "arch", .string (text "riscv32"))])]

/-- `[kernel]` with `config = 5`. -/
def brokenDocument : Value := .table [(text "kernel", .table [(text "config", .integer 5)])]

def rv32Preset : Preset := ⟨text "rv32.toml", text "rv32", text "/rv32.toml"⟩

def brokenPreset : Preset := ⟨text "broken.toml", text "broken", text "/broken.toml"⟩

/-- A document that is silent on the root file system is of no distribution. -/
theorem makeAccepts_initramfs
    (harch : archName cfg = .string (text "riscv32") ∨ archName cfg = .string (text "riscv64"))
    (hrootfs : rootfsType cfg = .string (text "initramfs"))
    (hshows : ∀ v ∈ shownByMake cfg, host.shows v = true) : MakeAccepts host cfg := by
  constructor
  · exact harch
  · rw [hrootfs]
    rintro (h | h)
    · exact absurd (Value.string.inj h) (by decide)
    · exact absurd (Value.string.inj h) (by decide)
  · exact hshows

theorem accepts_rv32Document (file : ConfigFile) : Accepts plainHost rv32Document file := by
  cases file with
  | mk => exact makeAccepts_initramfs (.inl rfl) rfl (by decide)
  | kernel | kernelMinimal | kernelBuildroot | kernelDistro => exact fun h => nomatch h
  | buildroot => exact fun h => nomatch h

theorem accepts_brokenDocument : Accepts plainHost brokenDocument .mk :=
  makeAccepts_initramfs (.inr rfl) rfl (by decide)

theorem refuses_brokenDocument : ¬ Accepts plainHost brokenDocument .kernel := by
  intro h
  obtain ⟨rows, hrows, -⟩ := h rfl
  cases hrows

/-- Over the files of one preset a refused one leaves its `.config.mk` beside their
`.config.kernel`. -/
theorem main_mixes_presets :
    let before := (main plainHost rv32Document rv32Preset ConfigFile.name fun _ => none).2
    let after := (main plainHost brokenDocument brokenPreset ConfigFile.name before).2
    (main plainHost rv32Document rv32Preset ConfigFile.name fun _ => none).1.isOk = true ∧
    (main plainHost brokenDocument brokenPreset ConfigFile.name before).1.isOk = false ∧
    after .mk ≠ before .mk ∧ after .kernel = before .kernel ∧
    ¬ AllOrNothing plainHost brokenDocument brokenPreset ConfigFile.name before := by
  intro before after
  have hok : (main plainHost rv32Document rv32Preset ConfigFile.name fun _ => none).1.isOk =
      true := (isOk_main _).mpr accepts_rv32Document
  have hfailed :
      (main plainHost brokenDocument brokenPreset ConfigFile.name before).1.isOk = false := by
    rw [← Bool.not_eq_true, isOk_main]
    exact fun h => refuses_brokenDocument (h .kernel)
  have hrendered : rendered (render plainHost brokenDocument brokenPreset) ConfigFile.all =
      [.mk] := by
    obtain ⟨file, hmk⟩ := isOk_iff.mp (isOk_render.mpr accepts_brokenDocument)
    have hkernel : ¬ (render plainHost brokenDocument brokenPreset .kernel).isOk = true :=
      fun hok => refuses_brokenDocument (isOk_render.mp hok)
    rw [ConfigFile.all, rendered_cons_ok hmk, rendered_cons_error hkernel]
  have hbefore : render plainHost rv32Document rv32Preset .mk = .ok (before .mk) :=
    run_holds_of_ok nodup_all ((run_completes_iff _ _ _ _).mpr accepts_rv32Document) (mem_all .mk)
  have hafter : render plainHost brokenDocument brokenPreset .mk = .ok (after .mk) := by
    apply (run_holds nodup_all before .mk).1
    rw [hrendered]
    exact List.mem_cons_self
  have hkernel : after .kernel = before .kernel := by
    have hnot : ConfigFile.kernel ∉
        rendered (render plainHost brokenDocument brokenPreset) ConfigFile.all := by
      rw [hrendered]
      decide
    have hheld := (run_holds nodup_all before .kernel).2 hnot
    exact hheld
  have hmk : after .mk ≠ before .mk := by
    intro heq
    have hsame : (render plainHost brokenDocument brokenPreset .mk).toOption =
        (render plainHost rv32Document rv32Preset .mk).toOption := by
      rw [hafter, hbefore, heq]
    revert hsame
    decide +kernel
  refine ⟨hok, hfailed, hmk, hkernel, ?_⟩
  intro h
  have hsame : after = before := h.fails hfailed
  exact hmk (congrFun hsame .mk)

end LinuxBuild.Configure
