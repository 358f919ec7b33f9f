import Mathlib.Data.List.Nodup
import LinuxBuild.Joined
import LinuxBuild.Release

/-!
# The names of the archives

A name joins a label and the kernel version with `-v`, and the label of a
Buildroot package joins the bits and the stem with `-`. Nothing is escaped.
-/

namespace LinuxBuild.Repository

open LinuxBuild.Joined

/-- A package without Buildroot. -/
def Variant.plain (variant : Variant) : Bool := variant = .tinyShell || variant.isDistro

def bitsStem (p : Path) (cfg : Preset) : Text := archBits cfg ++ text "-" ++ stem p

/-- A name between `linux-riscv-` and the version. -/
def label (p : Path) (cfg : Preset) (variant : Variant) : Text :=
  if variant.plain then stem p else text "rv" ++ bitsStem p cfg ++ text "-buildroot"

theorem packageName_eq (p : Path) (cfg : Preset) (variant : Variant) :
    packageName p cfg variant =
      text "linux-riscv-" ++ (label p cfg variant ++ text "-v" ++ cfg.kernelVersion) := by
  have hrv : text "linux-riscv-rv" = text "linux-riscv-" ++ text "rv" := by decide
  cases variant <;> simp [packageName, label, Variant.plain, Variant.isDistro, bitsStem, hrv]

namespace Package

def label (a : Package) : Text := Repository.label a.preset a.cfg a.variant

/-- Two labels are one text: a stem spells a Buildroot label, or `-` stands in
the bits of one package where it joins bits and stem of the other. -/
def SameLabel (a b : Package) : Prop :=
  match a.variant.plain, b.variant.plain with
  | true, true => False
  | true, false => stem a.preset = b.label
  | false, true => a.label = stem b.preset
  | false, false =>
    Shifted (text "-") (archBits a.cfg) (stem a.preset) (archBits b.cfg) (stem b.preset) ∨
      Shifted (text "-") (archBits b.cfg) (stem b.preset) (archBits a.cfg) (stem a.preset)

/-- Two packages with different presets get one name: with the same version, or
where `-v` stands in the version of one of them. -/
def Clash (a b : Package) : Prop :=
  a.cfg.kernelVersion = b.cfg.kernelVersion ∧ a.SameLabel b ∨
    Shifted (text "-v") a.label a.cfg.kernelVersion b.label b.cfg.kernelVersion ∨
    Shifted (text "-v") b.label b.cfg.kernelVersion a.label a.cfg.kernelVersion

/-- A package as `matrix` yields it. -/
structure Listed (toml : Bytes → Option Preset) (t : Tree) (a : Package) : Prop where
  cfg : (t.file? a.preset).bind toml = some a.cfg
  variant : a.variant ∈ variants a.cfg
  name : a.name = packageName a.preset a.cfg a.variant

end Package

theorem variants_cases (cfg : Preset) :
    variants cfg = [.alpine] ∨ variants cfg = [.debian] ∨ variants cfg = [.tinyShell] ∨
      variants cfg = [.tinyShell, .buildroot] := by
  unfold variants
  split
  · exact .inl rfl
  · split
    · exact .inr (.inl rfl)
    · split
      · exact .inr (.inr (.inr rfl))
      · exact .inr (.inr (.inl rfl))

/-- No preset has two packages with Buildroot, or two without. -/
theorem variant_eq_of_plain {cfg : Preset} {v w : Variant} (hv : v ∈ variants cfg)
    (hw : w ∈ variants cfg) (h : v.plain = w.plain) : v = w := by
  obtain hall | hall | hall | hall := variants_cases cfg
  · rw [hall, List.mem_singleton] at hv hw
    rw [hv, hw]
  · rw [hall, List.mem_singleton] at hv hw
    rw [hv, hw]
  · rw [hall, List.mem_singleton] at hv hw
    rw [hv, hw]
  · have hcases : ∀ v ∈ [Variant.tinyShell, .buildroot], ∀ w ∈ [Variant.tinyShell, .buildroot],
        v.plain = w.plain → v = w := by decide
    exact hcases v (hall ▸ hv) w (hall ▸ hw) h

/-! ## Two names -/

namespace Package

variable {toml : Bytes → Option Preset} {t : Tree} {a b : Package}

theorem Listed.name_eq (h : Listed toml t a) :
    a.name = text "linux-riscv-" ++ (a.label ++ text "-v" ++ a.cfg.kernelVersion) :=
  h.name.trans (packageName_eq a.preset a.cfg a.variant)

/-- The same file is read the same way. -/
theorem Listed.cfg_eq (ha : Listed toml t a) (hb : Listed toml t b) (h : a.preset = b.preset) :
    a.cfg = b.cfg := by
  have hcfg := ha.cfg
  rw [h, hb.cfg] at hcfg
  exact (Option.some.inj hcfg).symm

/-- For two packages with the same kind of label the stems tell them apart. -/
theorem Listed.stem_ne (ha : Listed toml t a) (hb : Listed toml t b)
    (hstem : stem a.preset = stem b.preset → a.preset = b.preset)
    (hne : (a.preset, a.variant) ≠ (b.preset, b.variant))
    (hplain : a.variant.plain = b.variant.plain) : stem a.preset ≠ stem b.preset := by
  intro h
  have hpreset := hstem h
  have hcfg := ha.cfg_eq hb hpreset
  have hvariant := hb.variant
  rw [← hcfg] at hvariant
  exact hne (by rw [hpreset, variant_eq_of_plain ha.variant hvariant hplain])

theorem Listed.label_eq_iff (ha : Listed toml t a) (hb : Listed toml t b)
    (hstem : stem a.preset = stem b.preset → a.preset = b.preset)
    (hne : (a.preset, a.variant) ≠ (b.preset, b.variant)) :
    a.label = b.label ↔ a.SameLabel b := by
  have hdiffer := ha.stem_ne hb hstem hne
  cases hpa : a.variant.plain with
  | true =>
    cases hpb : b.variant.plain with
    | true =>
      simp only [label, Repository.label, SameLabel, hpa, hpb, if_true, iff_false]
      exact hdiffer (by rw [hpa, hpb])
    | false => simp only [label, Repository.label, SameLabel, hpa, hpb, if_true]
  | false =>
    cases hpb : b.variant.plain with
    | true => simp only [label, Repository.label, SameLabel, hpa, hpb, if_true]
    | false =>
      have hcut : a.label = b.label ↔
          bitsStem a.preset a.cfg = bitsStem b.preset b.cfg := by
        simp [label, Repository.label, hpa, hpb]
      have hstems := hdiffer (by rw [hpa, hpb])
      have hsep : Unbordered (text "-") := unbordered_singleton '-'
      rw [hcut, bitsStem, bitsStem, joined_eq_iff hsep]
      simp only [SameLabel, hpa, hpb]
      constructor
      · rintro (⟨_, h⟩ | h)
        · exact absurd h hstems
        · exact h
      · exact .inr

theorem Listed.name_eq_iff (ha : Listed toml t a) (hb : Listed toml t b)
    (hstem : stem a.preset = stem b.preset → a.preset = b.preset)
    (hne : (a.preset, a.variant) ≠ (b.preset, b.variant)) : a.name = b.name ↔ a.Clash b := by
  have hsep : Unbordered (text "-v") := unbordered_pair (by decide)
  rw [ha.name_eq, hb.name_eq, List.append_cancel_left_eq, joined_eq_iff hsep,
    ha.label_eq_iff hb hstem hne, and_comm, Clash]

/-- The packages of one preset have different names. -/
theorem Listed.not_clash (ha : Listed toml t a) (hb : Listed toml t b)
    (hpreset : a.preset = b.preset) (hne : a.variant ≠ b.variant) : ¬ a.Clash b := by
  intro hclash
  have hcfg := ha.cfg_eq hb hpreset
  have hvariant := hb.variant
  rw [← hcfg] at hvariant
  have hplain : a.variant.plain ≠ b.variant.plain := fun h =>
    hne (variant_eq_of_plain ha.variant hvariant h)
  have hpair : (a.preset, a.variant) ≠ (b.preset, b.variant) := fun h => hne (Prod.mk.inj h).2
  have hname := (ha.name_eq_iff hb (fun _ => hpreset) hpair).mpr hclash
  rw [ha.name_eq, hb.name_eq, hcfg, List.append_cancel_left_eq, List.append_cancel_right_eq,
    List.append_cancel_right_eq] at hname
  -- the label with Buildroot is the longer one
  have hlength := congrArg List.length hname
  simp only [label, Repository.label, bitsStem, hpreset, hcfg] at hlength
  revert hplain hlength
  cases a.variant.plain <;> cases b.variant.plain <;> simp [text] <;> omega

end Package

/-! ## The matrix -/

variable {toml : Bytes → Option Preset} {t : Tree}

theorem variants_nodup (cfg : Preset) : (variants cfg).Nodup := by
  obtain h | h | h | h := variants_cases cfg <;> rw [h] <;> decide

/-- The rows of some presets, one after another. -/
theorem rows_listed {presets : List Path} {rows : List (List Package)}
    (h : presets.mapM (fun p => do
      let cfg ← toml (← t.file? p)
      return (variants cfg).map fun variant => (⟨p, cfg, variant, packageName p cfg variant⟩ : Package))
      = some rows) (hnodup : presets.Nodup) :
    (∀ a ∈ rows.flatten, a.Listed toml t ∧ a.preset ∈ presets) ∧
      rows.flatten.Pairwise fun a b => (a.preset, a.variant) ≠ (b.preset, b.variant) := by
  induction presets generalizing rows with
  | nil =>
    cases h
    simp
  | cons p presets ih =>
    rw [List.mapM_cons] at h
    obtain ⟨row, hrow, h⟩ := Option.bind_eq_some_iff.mp h
    obtain ⟨rest, hrest, h⟩ := Option.bind_eq_some_iff.mp h
    obtain ⟨content, hcontent, hrow⟩ := Option.bind_eq_some_iff.mp hrow
    obtain ⟨cfg, hcfg, hrow⟩ := Option.bind_eq_some_iff.mp hrow
    cases hrow
    cases h
    obtain ⟨hfresh, hnodup⟩ := List.nodup_cons.mp hnodup
    obtain ⟨hlisted, hpairs⟩ := ih hrest hnodup
    have hhead : ∀ a ∈ (variants cfg).map fun variant =>
        (⟨p, cfg, variant, packageName p cfg variant⟩ : Package),
        a.Listed toml t ∧ a.preset = p := by
      intro a ha
      obtain ⟨variant, hvariant, rfl⟩ := List.mem_map.mp ha
      exact ⟨⟨by rw [hcontent]; exact hcfg, hvariant, rfl⟩, rfl⟩
    rw [List.flatten_cons]
    constructor
    · intro a ha
      rcases List.mem_append.mp ha with ha | ha
      · exact ⟨(hhead a ha).1, by rw [(hhead a ha).2]; exact List.mem_cons_self⟩
      · exact ⟨(hlisted a ha).1, List.mem_cons_of_mem _ (hlisted a ha).2⟩
    · apply List.pairwise_append.mpr
      refine ⟨?_, hpairs, ?_⟩
      · rw [List.pairwise_map]
        apply (variants_nodup cfg).imp
        intro v w hvw heq
        exact hvw (Prod.mk.inj heq).2
      · intro a ha b hb heq
        have hpreset := (Prod.mk.inj heq).1
        rw [(hhead a ha).2] at hpreset
        exact hfresh (hpreset ▸ (hlisted b hb).2)

end LinuxBuild.Repository

namespace LinuxBuild.Release

open Repository

variable {toml : Bytes → Option Preset} {t : Tree}

/-- Two packages of the matrix get one name only where they clash, which the
packages of one preset do not, and `expected` has an entry for every package
exactly when none clash. -/
theorem archive_names {packages : List Package} (h : matrix toml t = some packages)
    (hstems : ((t.glob configs (text ".toml")).map stem).Nodup) :
    (∀ a ∈ packages, ∀ b ∈ packages, (a.preset, a.variant) ≠ (b.preset, b.variant) →
      (a.name = b.name ↔ a.Clash b) ∧ (a.Clash b → a.preset ≠ b.preset)) ∧
    ∃ items, expected toml t = some items ∧
      (items.length = packages.length ↔ packages.Pairwise fun a b => ¬ a.Clash b) := by
  have hperm := List.mergeSort_perm (t.glob configs (text ".toml")) fun a b => decide (a ≤ b)
  obtain ⟨rows, hrows, hpackages⟩ := Option.bind_eq_some_iff.mp h
  obtain rfl := Option.some.inj hpackages
  have hnodup : (sorted (t.glob configs (text ".toml"))).Nodup := hperm.nodup_iff.mpr (hstems.of_map stem)
  obtain ⟨hlisted, hpairs⟩ := rows_listed hrows hnodup
  have hstem : ∀ a ∈ rows.flatten, ∀ b ∈ rows.flatten, stem a.preset = stem b.preset →
      a.preset = b.preset := fun a ha b hb =>
    List.inj_on_of_nodup_map hstems (hperm.mem_iff.mp (hlisted a ha).2)
      (hperm.mem_iff.mp (hlisted b hb).2)
  have hname : ∀ a ∈ rows.flatten, ∀ b ∈ rows.flatten,
      (a.preset, a.variant) ≠ (b.preset, b.variant) → (a.name = b.name ↔ a.Clash b) := by
    intro a ha b hb hne
    exact (hlisted a ha).1.name_eq_iff (hlisted b hb).1 (hstem a ha b hb) hne
  constructor
  · intro a ha b hb hne
    refine ⟨hname a ha b hb hne, ?_⟩
    intro hclash hpreset
    apply (hlisted a ha).1.not_clash (hlisted b hb).1 hpreset _ hclash
    intro hvariant
    exact hne (by rw [hpreset, hvariant])
  · refine ⟨_, by rw [expected, h]; rfl, ?_⟩
    have hlength := Python.length_dictItems
      (rows.flatten.map fun package => (archiveName package, package))
    rw [List.length_map, List.map_map] at hlength
    rw [hlength, List.Nodup, List.pairwise_map]
    have harchive : ∀ a b : Package, archiveName a = archiveName b ↔ a.name = b.name :=
      fun a b => List.append_left_inj _
    simp only [Function.comp, harchive, ne_eq]
    constructor
    · intro hnames
      apply (hpairs.and hnames).imp_of_mem
      intro a b ha hb hab hclash
      exact hab.2 ((hname a ha b hb hab.1).mpr hclash)
    · intro hclash
      apply (hpairs.and hclash).imp_of_mem
      intro a b ha hb hab heq
      exact hab.2 ((hname a ha b hb hab.1).mp heq)

/-- A preset file that holds the kernel version only. -/
def versionPreset (content : Bytes) : Option Preset :=
  some { arch := text "riscv64", kernelVersion := content.map fun c => Char.ofNat c.toNat,
         rootfsType := none, hasBuildroot := false }

def twoPresets (a b : String × String) : Tree :=
  (configs, .dir) :: [a, b].map fun x => ([text "configs", text x.1], .file (ascii x.2))

/-- Presets that are listed in order. -/
theorem sorted_eq_self {paths : List Path} (h : paths.Pairwise fun a b => decide (a ≤ b) = true) :
    sorted paths = paths :=
  List.mergeSort_of_pairwise h

def usualPresets : Tree := twoPresets ("rv32.toml", "6.12") ("rv64.toml", "6.12")

theorem sorted_usualPresets : sorted (usualPresets.glob configs (text ".toml")) =
    usualPresets.glob configs (text ".toml") :=
  sorted_eq_self (by decide +kernel)

theorem archive_names_usual :
    ∃ items, expected versionPreset usualPresets = some items ∧
      (items.length = 2 ↔ ((matrix versionPreset usualPresets).getD []).Pairwise
        fun a b => ¬ a.Clash b) := by
  have h : matrix versionPreset usualPresets =
      some ((matrix versionPreset usualPresets).getD []) := by
    simp only [matrix, sorted_usualPresets]
    decide +kernel
  have hlength : ((matrix versionPreset usualPresets).getD []).length = 2 := by
    simp only [matrix, sorted_usualPresets]
    decide +kernel
  have hitems := (archive_names h (by decide +kernel)).2
  rw [hlength] at hitems
  exact hitems

def clashingPresets : Tree := twoPresets ("a-v1.toml", "2") ("a.toml", "1-v2")

/-- Two stems that differ, and one name. -/
theorem archive_names_merge :
    (clashingPresets.glob configs (text ".toml")).map stem = [text "a-v1", text "a"] ∧
      (matrix versionPreset clashingPresets).map (fun packages => packages.map (·.name)) =
        some [text "linux-riscv-a-v1-v2", text "linux-riscv-a-v1-v2"] ∧
      (expected versionPreset clashingPresets).map List.length = some 1 := by
  have hsorted : sorted (clashingPresets.glob configs (text ".toml")) =
      clashingPresets.glob configs (text ".toml") := sorted_eq_self (by decide +kernel)
  simp only [expected, matrix, hsorted]
  decide +kernel

end LinuxBuild.Release
