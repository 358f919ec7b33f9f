import LinuxBuild.MakeConfig

/-!
# The files of `gen-config.py`

Rendered from a document as it is parsed. A table, a value or a list of
another type than expected is passed over in some places and refused in
others.
-/

namespace LinuxBuild.Configure

open Toml MakeConfig
open Python (isOk_bind isOk_iff isOk_bind_pure isOk_mapM)

/-- What rendering depends on besides the document: how Python shows values and
upper case, how many digits of an integer it shows (zero: all), and the
directory of the runtime baseline. -/
structure Host where
  repr : Value → Text
  maxDigits : Nat
  upper : Char → Text
  baseline : Text

/-- The integer is not too long for `str`. -/
def Host.showsInt (host : Host) (n : Int) : Bool :=
  host.maxDigits == 0 || (Nat.toDigits 10 n.natAbs).length ≤ host.maxDigits

/-! ## Values that can be shown -/

mutual

def Host.shows (host : Host) : Value → Bool
  | .integer n => host.showsInt n
  | .array items => host.showsItems items
  | .table rows => host.showsRows rows
  | _ => true

def Host.showsItems (host : Host) : List Value → Bool
  | [] => true
  | v :: items => host.shows v && host.showsItems items

def Host.showsRows (host : Host) : List (Text × Value) → Bool
  | [] => true
  | row :: rows => host.showsRow row && host.showsRows rows

def Host.showsRow (host : Host) : Text × Value → Bool
  | (_, v) => host.shows v

end

variable (host : Host)

/-- `f"{v}"`. -/
def shown (v : Value) : Except Refusal Text :=
  if host.shows v then .ok (v.str host.repr) else .error .raised

/-- `deep_get` with its own default, `None`. -/
def get? : Value → List Text → Option Value
  | d, [] => some d
  | d, k :: keys => (d.item? k).bind fun inner => get? inner keys

/-! ## `.config.mk` -/

def archName (cfg : Value) : Value :=
  deepGet (.string (text "riscv64")) cfg [text "target", text "arch"]

def rootfsType (cfg : Value) : Value :=
  deepGet (.string (text "initramfs")) cfg [text "rootfs", text "type"]

def loader (cfg : Value) : Value :=
  deepGet (.string (text "qemu")) cfg [text "boot", text "loader"]

def compression (cfg : Value) : Value :=
  deepGet (.string (text "gzip")) cfg [text "rootfs", text "compression"]

/-- The values that `gen_make_config` shows. -/
def shownByMake (cfg : Value) : List Value :=
  let mem := deepGet (.integer 1024) cfg [text "boot", text "memory"]
  [deepGet (.boolean false) cfg [text "minimal", text "fpu"],
   deepGet (.boolean true) cfg [text "buildroot", text "fpu"],
   deepGet (.string (text "6.18.51")) cfg [text "kernel", text "version"],
   rootfsType cfg, compression cfg, loader cfg, mem,
   deepGet mem cfg [text "buildroot", text "memory"],
   deepGet (.integer 0) cfg [text "boot", text "timeout"],
   deepGet (.integer 2222) cfg [text "buildroot", text "ssh_port"]]

def makeConfig (presetName presetPath : Text) (cfg : Value) : Except Refusal Text := do
  let _ ← shown host (archName cfg)
  let _ ← archOf host.repr (archName cfg)
  let _ ← (shownByMake cfg).mapM (shown host)
  genMakeConfig host.repr cfg presetName presetPath

/-! ## `.config.kernel` and its variants -/

/-- `if v: v.items()`. -/
def itemsOf (v : Value) : Except Refusal (List (Text × Value)) :=
  if v.truth then
    match v with
    | .table rows => .ok rows
    | _ => .error .raised
  else .ok []

def kconfigLine (key : Text) (val : Value) : Except Refusal Text :=
  match val with
  | .boolean b => .ok (Kconfig.kconfigLine key (.bool b))
  | .integer n =>
    if host.showsInt n then .ok (Kconfig.kconfigLine key (.int n)) else .error .raised
  | val => do return Kconfig.kconfigLine key (.str (← shown host val))

/-- The lines of a table, between a heading and an empty line. -/
def tableLines (heading : List Text) (v : Value) : Except Refusal (List Text) := do
  let rows ← itemsOf v
  let lines ← rows.mapM fun (k, v) => kconfigLine host k v
  return if rows.isEmpty then [] else heading ++ lines ++ [[]]

def userConfig (cfg : Value) : Value := deepGet (.table []) cfg [text "kernel", text "config"]

def genKernelConfig (cfg : Value) : Except Refusal Text := do
  let user ← tableLines host [text "# --- User overrides from [kernel.config] ---"] (userConfig cfg)
  let lines :=
    [text "# Auto-generated shared kernel config — DO NOT EDIT",
     text "# Source: system.toml  ->  applied via scripts/config",
     [],
     text "# All supported RV32/RV64 targets implement compressed instructions.",
     text "CONFIG_RISCV_ISA_C=y",
     []] ++
    (if (archName cfg).isText (text "riscv32") then
      [text "# --- RV32 arch overrides ---"] ++
        Kconfig.kernelArchConfigsRv32.map Kconfig.Entry.line ++ [[]]
     else []) ++
    (if (compression cfg).isText (text "zstd") then
      [text "# --- zstd compression ---", Kconfig.kconfigLine (text "RD_ZSTD") (.bool true),
       Kconfig.kconfigLine (text "INITRAMFS_COMPRESSION_ZSTD") (.bool true), []]
     else []) ++ user
  return Python.join (text "\n") lines ++ text "\n"

/-- The table under the dotted key, or else the nested one. -/
def variantConfig (cfg : Value) (variant : Kconfig.Variant) : Value :=
  (get? cfg [variant.name, text "kernel.config"]).getD
    (deepGet (.table []) cfg [variant.name, text "kernel", text "config"])

def genVariantKernelConfig (cfg : Value) (variant : Kconfig.Variant) : Except Refusal Text := do
  let user ← tableLines host [] (variantConfig cfg variant)
  let lines :=
    [text "# Auto-generated " ++ variant.name ++ text " kernel config — DO NOT EDIT",
     text "# Source: system.toml [" ++ variant.name ++ text ".kernel.config]",
     []] ++ user
  return Python.join (text "\n") lines ++ text "\n"

/-! ## `.config.buildroot` -/

def includes (cfg : Value) : Value :=
  deepGet (.array []) cfg [text "buildroot", text "packages", text "include"]

def shell? (cfg : Value) : Option Value :=
  get? cfg [text "buildroot", text "packages", text "shell"]

def rootPassword? (cfg : Value) : Option Value :=
  get? cfg [text "buildroot", text "packages", text "root_password"]

/-- What `sorted(packages)` and `pkg_symbol` take: the characters of a string, the keys of a
table, a list of strings. -/
def packageNames (packages : Value) : Except Refusal (List Text) :=
  if packages.truth then
    match packages with
    | .string s => .ok (s.map ([·]))
    | .table rows => .ok (rows.map Prod.fst)
    | .array items => items.mapM fun item => (item.string?).elim (.error .raised) .ok
    | _ => .error .raised
  else .ok []

/-- `shell and shell in BUILDROOT_SHELL_MAP`: a list or a table is no key. -/
def shellName (shell : Option Value) : Except Refusal (Option Text) :=
  match shell with
  | some (.string s) => .ok (some s)
  | some (.array items) => if items.isEmpty then .ok none else .error .raised
  | some (.table rows) => if rows.isEmpty then .ok none else .error .raised
  | _ => .ok none

def passwordText (password : Option Value) : Except Refusal (Option Text) :=
  match password with
  | none => .ok none
  | some v => if v.truth then some <$> shown host v else .ok none

def genBuildrootConfig (cfg : Value) : Except Refusal Text := do
  let shell ← shellName (shell? cfg)
  let packages ← packageNames (includes cfg)
  let password ← passwordText host (rootPassword? cfg)
  return LinuxBuild.genBuildrootConfig host.upper
    ⟨((compression cfg).string?).getD [], packages, shell, password, host.baseline⟩

/-! ## What is accepted -/

/-- `gen_make_config` takes the two targets, and a distribution on one of them. -/
structure MakeAccepts (cfg : Value) : Prop where
  arch : archName cfg = .string (text "riscv32") ∨ archName cfg = .string (text "riscv64")
  distro : rootfsType cfg = .string (text "alpine") ∨ rootfsType cfg = .string (text "debian") →
    archName cfg = .string (text "riscv64") ∧ loader cfg = .string (text "qemu")
  shows : ∀ v ∈ shownByMake cfg, host.shows v = true

/-- What counts as false stands for an empty table. -/
def TableAccepts (v : Value) : Prop :=
  v.truth = true → ∃ rows, v = .table rows ∧ ∀ row ∈ rows, host.shows row.2 = true

/-- What counts as false stands for no packages. -/
def PackagesAccepts (v : Value) : Prop :=
  v.truth = true → (∃ s, v = .string s) ∨ (∃ rows, v = .table rows) ∨
    ∃ items, v = .array items ∧ ∀ item ∈ items, ∃ s, item = .string s

/-- Anything but a list or a table that is not empty. -/
def ShellAccepts (shell : Option Value) : Prop :=
  ∀ v, shell = some v → v.truth = true →
    (∀ items, v ≠ .array items) ∧ ∀ rows, v ≠ .table rows

def PasswordAccepts (password : Option Value) : Prop :=
  ∀ v, password = some v → v.truth = true → host.shows v = true

/-! ## Renderers and what they accept -/

variable {host}

theorem isOk_shown {v : Value} : (shown host v).isOk = true ↔ host.shows v = true := by
  unfold shown
  split
  next h => exact ⟨fun _ => h, fun _ => rfl⟩
  next h => exact ⟨fun h' => (nomatch h'), fun h' => absurd h' h⟩

theorem isOk_kconfigLine {key : Text} {val : Value} :
    (kconfigLine host key val).isOk = true ↔ host.shows val = true := by
  unfold kconfigLine
  split
  · exact ⟨fun _ => by rw [Host.shows] <;> simp, fun _ => rfl⟩
  · rw [Host.shows]
    split
    next h => exact ⟨fun _ => h, fun _ => rfl⟩
    next h => exact ⟨fun h' => (nomatch h'), fun h' => absurd h' h⟩
  · rw [isOk_bind_pure, isOk_shown]

theorem itemsOf_ok_iff {v : Value} {rows : List (Text × Value)} :
    itemsOf v = .ok rows ↔ (v.truth = false ∧ rows = []) ∨ (v.truth = true ∧ v = .table rows) := by
  unfold itemsOf
  cases htruth : v.truth with
  | false =>
    rw [if_neg Bool.false_ne_true]
    simp [eq_comm]
  | true =>
    rw [if_pos rfl]
    cases v with
    | table rows' => simp
    | string | integer | float | boolean | moment | array => simp

theorem isOk_tableLines {heading : List Text} {v : Value} :
    (tableLines host heading v).isOk = true ↔ TableAccepts host v := by
  rw [tableLines, isOk_bind]
  constructor
  · rintro ⟨rows, hrows, hlines⟩ htruth
    rcases itemsOf_ok_iff.mp hrows with ⟨hfalse, -⟩ | ⟨-, rfl⟩
    · rw [htruth] at hfalse
      cases hfalse
    · have hall := isOk_mapM.mp (isOk_bind_pure.mp hlines)
      exact ⟨rows, rfl, fun row hrow => isOk_kconfigLine.mp (hall row hrow)⟩
  · intro haccepts
    cases htruth : v.truth with
    | false => exact ⟨[], itemsOf_ok_iff.mpr (.inl ⟨htruth, rfl⟩), rfl⟩
    | true =>
      obtain ⟨rows, rfl, hall⟩ := haccepts htruth
      have hlines : (rows.mapM fun (k, v) => kconfigLine host k v).isOk = true :=
        isOk_mapM.mpr fun row hrow => isOk_kconfigLine.mpr (hall row hrow)
      exact ⟨rows, itemsOf_ok_iff.mpr (.inr ⟨htruth, rfl⟩), isOk_bind_pure.mpr hlines⟩

theorem isOk_genKernelConfig {cfg : Value} :
    (genKernelConfig host cfg).isOk = true ↔ TableAccepts host (userConfig cfg) := by
  rw [genKernelConfig, isOk_bind_pure, isOk_tableLines]

theorem isOk_genVariantKernelConfig {cfg : Value} {variant : Kconfig.Variant} :
    (genVariantKernelConfig host cfg variant).isOk = true ↔
      TableAccepts host (variantConfig cfg variant) := by
  rw [genVariantKernelConfig, isOk_bind_pure, isOk_tableLines]

theorem isOk_packageNames {packages : Value} :
    (packageNames packages).isOk = true ↔ PackagesAccepts packages := by
  unfold packageNames PackagesAccepts
  cases htruth : packages.truth with
  | false => exact ⟨fun _ h => (nomatch h), fun _ => rfl⟩
  | true =>
    rw [if_pos rfl]
    cases packages with
    | string s => exact ⟨fun _ _ => .inl ⟨s, rfl⟩, fun _ => rfl⟩
    | table rows => exact ⟨fun _ _ => .inr (.inl ⟨rows, rfl⟩), fun _ => rfl⟩
    | array items =>
      have hitem : ∀ item : Value,
          ((item.string?).elim (.error .raised) .ok : Except Refusal Text).isOk = true ↔
            ∃ s, item = .string s := by
        intro item
        cases item <;> simp [Value.string?, Except.isOk, Except.toBool]
      simp [isOk_mapM, hitem]
    | integer | float | boolean | moment => simp [Except.isOk, Except.toBool]

theorem isOk_shellName {shell : Option Value} :
    (shellName shell).isOk = true ↔ ShellAccepts shell := by
  unfold ShellAccepts
  cases shell with
  | none => exact ⟨fun _ v h => (nomatch h), fun _ => rfl⟩
  | some v =>
    cases v with
    | array items => cases items <;> simp [shellName, Value.truth, Except.isOk, Except.toBool]
    | table rows => cases rows <;> simp [shellName, Value.truth, Except.isOk, Except.toBool]
    | string | integer | float | boolean | moment =>
      simp [shellName, Except.isOk, Except.toBool]

theorem isOk_passwordText {password : Option Value} :
    (passwordText host password).isOk = true ↔ PasswordAccepts host password := by
  unfold PasswordAccepts
  cases password with
  | none => exact ⟨fun _ v h => (nomatch h), fun _ => rfl⟩
  | some v =>
    rw [passwordText]
    split
    next htruth =>
      have hmap : (some <$> shown host v).isOk = true ↔ (shown host v).isOk = true := isOk_bind_pure
      rw [hmap, isOk_shown]
      simp [htruth]
    next htruth => simp [htruth, Except.isOk, Except.toBool]

theorem isOk_genBuildrootConfig {cfg : Value} :
    (genBuildrootConfig host cfg).isOk = true ↔ ShellAccepts (shell? cfg) ∧
      PackagesAccepts (includes cfg) ∧ PasswordAccepts host (rootPassword? cfg) := by
  rw [genBuildrootConfig, isOk_bind, ← isOk_shellName, ← isOk_packageNames, ← isOk_passwordText]
  constructor
  · rintro ⟨shell, hshell, h⟩
    obtain ⟨packages, hpackages, h⟩ := isOk_bind.mp h
    obtain ⟨password, hpassword, -⟩ := isOk_bind.mp h
    exact ⟨isOk_iff.mpr ⟨shell, hshell⟩, isOk_iff.mpr ⟨packages, hpackages⟩,
      isOk_iff.mpr ⟨password, hpassword⟩⟩
  · rintro ⟨hshell, hpackages, hpassword⟩
    obtain ⟨shell, hshell⟩ := isOk_iff.mp hshell
    obtain ⟨packages, hpackages⟩ := isOk_iff.mp hpackages
    exact ⟨shell, hshell, isOk_bind.mpr ⟨packages, hpackages, isOk_bind_pure.mpr hpassword⟩⟩

theorem archOf_ok_iff {name : Value} {arch : Arch} :
    archOf host.repr name = .ok arch ↔ (name = .string (text "riscv32") ∧ arch = rv32) ∨
      (name = .string (text "riscv64") ∧ arch = rv64) := by
  constructor
  · intro h
    obtain ⟨s, rfl, hlookup⟩ := archOf_ok h
    rcases lookup_archMap hlookup with ⟨rfl, rfl⟩ | ⟨rfl, rfl⟩
    · exact .inl ⟨rfl, rfl⟩
    · exact .inr ⟨rfl, rfl⟩
  · rintro (⟨rfl, rfl⟩ | ⟨rfl, rfl⟩)
    · rfl
    · rfl

theorem settings_of_arch {cfg : Value} {arch : Arch}
    (h : archOf host.repr (archName cfg) = .ok arch) :
    ∃ s, settings host.repr cfg = .ok s ∧ s.arch = arch ∧ s.rootfsTy = rootfsType cfg ∧
      s.loader = loader cfg := by
  have harch : archOf host.repr (deepGet (.string (text "riscv64")) cfg
    (["target", "arch"].map text)) = .ok arch := h
  rw [settings]
  simp only [harch]
  exact ⟨_, rfl, rfl, rfl, rfl⟩

theorem isText_iff {v : Value} {s : Text} : v.isText s = true ↔ v = .string s := by
  constructor
  · exact Value.isText_eq
  · rintro rfl
    exact beq_self_eq_true s

theorem isOk_genMakeConfig {cfg : Value} {arch : Arch} {presetName presetPath : Text}
    (h : archOf host.repr (archName cfg) = .ok arch) :
    (genMakeConfig host.repr cfg presetName presetPath).isOk = true ↔
      (rootfsType cfg = .string (text "alpine") ∨ rootfsType cfg = .string (text "debian") →
        arch.bits = 64 ∧ loader cfg = .string (text "qemu")) := by
  obtain ⟨s, hs, rfl, hrootfs, hloader⟩ := settings_of_arch h
  have hdistro : isDistro s = true ↔
      rootfsType cfg = .string (text "alpine") ∨ rootfsType cfg = .string (text "debian") := by
    rw [isDistro, Bool.or_eq_true, isText_iff, isText_iff, hrootfs]
  rw [genMakeConfig, isOk_bind_pure, allLines, hs, ← hdistro, ← hloader, ← isText_iff]
  change (if isDistro s then _ else _ : Except Refusal (List Line)).isOk = true ↔ _
  split
  next htrue =>
    split
    next hrefused =>
      constructor
      · intro h
        cases h
      · intro h
        obtain ⟨hbits, hqemu⟩ := h htrue
        rcases hrefused with hne | hne
        · exact absurd hbits hne
        · rw [hqemu] at hne
          cases hne
    next hallowed =>
      rw [not_or, not_not, Bool.not_eq_false] at hallowed
      exact ⟨fun _ _ => hallowed, fun _ => rfl⟩
  next hfalse => exact ⟨fun _ htrue => absurd htrue hfalse, fun _ => rfl⟩

theorem isOk_makeConfig {cfg : Value} {presetName presetPath : Text} :
    (makeConfig host presetName presetPath cfg).isOk = true ↔ MakeAccepts host cfg := by
  rw [makeConfig, isOk_bind]
  constructor
  · rintro ⟨_, -, h⟩
    obtain ⟨arch, harch, h⟩ := isOk_bind.mp h
    obtain ⟨values, hvalues, h⟩ := isOk_bind.mp h
    have hshows := isOk_mapM.mp (isOk_iff.mpr ⟨values, hvalues⟩)
    have hdistro := (isOk_genMakeConfig harch).mp h
    constructor
    · exact (archOf_ok_iff.mp harch).imp And.left And.left
    · intro hty
      obtain ⟨hbits, hloader⟩ := hdistro hty
      rcases archOf_ok_iff.mp harch with ⟨-, rfl⟩ | ⟨hname, -⟩
      · cases hbits
      · exact ⟨hname, hloader⟩
    · exact fun v hv => isOk_shown.mp (hshows v hv)
  · intro haccepts
    have hshown : (shown host (archName cfg)).isOk = true := by
      rw [isOk_shown]
      rcases haccepts.arch with harch | harch <;> rw [harch, Host.shows] <;> simp
    have hvalues : ((shownByMake cfg).mapM (shown host)).isOk = true :=
      isOk_mapM.mpr fun v hv => isOk_shown.mpr (haccepts.shows v hv)
    obtain ⟨name, hname⟩ := isOk_iff.mp hshown
    obtain ⟨values, hvalues⟩ := isOk_iff.mp hvalues
    have harch : ∃ arch, archOf host.repr (archName cfg) = .ok arch ∧
        (archName cfg = .string (text "riscv64") → arch.bits = 64) := by
      rcases haccepts.arch with harch | harch
      · exact ⟨rv32, archOf_ok_iff.mpr (.inl ⟨harch, rfl⟩), fun h => by
          rw [harch] at h
          exact absurd (Value.string.inj h) (by decide)⟩
      · exact ⟨rv64, archOf_ok_iff.mpr (.inr ⟨harch, rfl⟩), fun _ => rfl⟩
    obtain ⟨arch, harch, hbits⟩ := harch
    have hmake : (genMakeConfig host.repr cfg presetName presetPath).isOk = true := by
      rw [isOk_genMakeConfig harch]
      exact fun hty => (haccepts.distro hty).imp hbits id
    exact ⟨name, hname, isOk_bind.mpr ⟨arch, harch, isOk_bind.mpr ⟨values, hvalues, hmake⟩⟩⟩

/-! ## Documents of booleans, integers and strings -/

def value : Kconfig.KVal → Value
  | .bool b => .boolean b
  | .int n => .integer n
  | .str s => .string s

def rowsOf (entries : List Kconfig.Entry) : List (Text × Value) :=
  entries.map fun e => (e.key, value e.val)

theorem kconfigLine_entry {e : Kconfig.Entry} (h : host.shows (value e.val) = true) :
    kconfigLine host e.key (value e.val) = .ok e.line := by
  rw [Kconfig.Entry.line]
  cases hval : e.val with
  | bool b => rfl
  | int n =>
    rw [hval, value, Host.shows] at h
    rw [value, kconfigLine, if_pos h]
  | str s => rfl

theorem tableLines_entries {entries : List Kconfig.Entry} (heading : List Text)
    (h : ∀ e ∈ entries, host.shows (value e.val) = true) :
    tableLines host heading (.table (rowsOf entries)) =
      .ok (if entries = [] then [] else heading ++ entries.map Kconfig.Entry.line ++ [[]]) := by
  have hitems : itemsOf (.table (rowsOf entries)) = .ok (rowsOf entries) := by
    rw [itemsOf_ok_iff]
    cases entries with
    | nil => exact .inl ⟨rfl, rfl⟩
    | cons e entries => exact .inr ⟨rfl, rfl⟩
  have hlines : (rowsOf entries).mapM (fun (k, v) => kconfigLine host k v) =
      .ok (entries.map Kconfig.Entry.line) := by
    clear hitems
    induction entries with
    | nil => rfl
    | cons e entries ih =>
      obtain ⟨he, hentries⟩ := List.forall_mem_cons.mp h
      rw [rowsOf, List.map_cons, List.mapM_cons, ← rowsOf, ih hentries]
      simp only [kconfigLine_entry he]
      rfl
  rw [tableLines, hitems]
  change (rowsOf entries).mapM (fun (k, v) => kconfigLine host k v) >>= _ = _
  rw [hlines]
  cases entries with
  | nil => rfl
  | cons e entries => rfl

/-- The shared fragment of a document with typed tables. -/
theorem genKernelConfig_entries {cfg : Value} {typed : Kconfig.KernelSettings}
    (harch : archName cfg = .string (typed.arch.getD (text "riscv64")))
    (hcompression : compression cfg = .string (typed.compression.getD (text "gzip")))
    (huser : userConfig cfg = .table (rowsOf typed.config))
    (h : ∀ e ∈ typed.config, host.shows (value e.val) = true) :
    genKernelConfig host cfg = .ok (Kconfig.genKernelConfig typed) := by
  rw [genKernelConfig, huser, tableLines_entries _ h, harch, hcompression]
  simp [Kconfig.genKernelConfig, Value.isText, bind, Except.bind, pure, Except.pure]

theorem genVariantKernelConfig_entries {cfg : Value} {typed : Kconfig.KernelSettings}
    {variant : Kconfig.Variant}
    (huser : variantConfig cfg variant = .table (rowsOf (Kconfig.variantConfig typed variant)))
    (h : ∀ e ∈ Kconfig.variantConfig typed variant, host.shows (value e.val) = true) :
    genVariantKernelConfig host cfg variant = .ok (Kconfig.genVariantKernelConfig typed variant) := by
  rw [genVariantKernelConfig, huser, tableLines_entries _ h]
  simp [Kconfig.genVariantKernelConfig, bind, Except.bind, pure, Except.pure]

end LinuxBuild.Configure
