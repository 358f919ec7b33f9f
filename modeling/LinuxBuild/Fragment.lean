import Mathlib.Data.Char
import Mathlib.Data.List.Lex
import LinuxBuild.Python

/-!
# Buildroot fragments

`gen_buildroot_config` writes them, `values` of `ensure-rootfs.py` reads them
back, and Buildroot reads them line by line.
-/

namespace LinuxBuild

def text (s : String) : Text := s.toList

/-- The settings `gen_buildroot_config` reads, and the directory it finds the
runtime baseline in. -/
structure BuildrootSettings where
  compression : Text
  packages : List Text
  shell : Option Text
  rootPassword : Option Text
  baseline : Text

/-- `BUILDROOT_PKG_MAP`. -/
def buildrootPkgMap : List (Text × Text) :=
  [(text "openssh", text "BR2_PACKAGE_OPENSSH"), (text "wget", text "BR2_PACKAGE_WGET"),
   (text "strace", text "BR2_PACKAGE_STRACE"), (text "htop", text "BR2_PACKAGE_HTOP"),
   (text "lsof", text "BR2_PACKAGE_LSOF"), (text "file", text "BR2_PACKAGE_FILE"),
   (text "tree", text "BR2_PACKAGE_TREE"), (text "python3", text "BR2_PACKAGE_PYTHON3"),
   (text "curl", text "BR2_PACKAGE_CURL"), (text "git", text "BR2_PACKAGE_GIT"),
   (text "bash", text "BR2_PACKAGE_BASH"), (text "tmux", text "BR2_PACKAGE_TMUX"),
   (text "vim", text "BR2_PACKAGE_VIM"), (text "nano", text "BR2_PACKAGE_NANO"),
   (text "rsync", text "BR2_PACKAGE_RSYNC"), (text "iproute2", text "BR2_PACKAGE_IPROUTE2")]

/-- `BUILDROOT_SHELL_MAP`. -/
def buildrootShellMap : List (Text × Text) :=
  [(text "bash", text "BR2_SYSTEM_BIN_SH_BASH"), (text "dash", text "BR2_SYSTEM_BIN_SH_DASH"),
   (text "zsh", text "BR2_SYSTEM_BIN_SH_ZSH"),
   (text "busybox", text "BR2_SYSTEM_BIN_SH_BUSYBOX_ASH")]

/-- `pkg_symbol`; `upper` is `str.upper` of one character. -/
def pkgSymbol (upper : Char → Text) (name : Text) : Text :=
  match buildrootPkgMap.lookup name with
  | some symbol => symbol
  | none =>
    text "BR2_PACKAGE_" ++ (name.flatMap upper).map fun c => if c = '-' then '_' else c

def shellLines (shell : Option Text) : List Text :=
  match shell with
  | none => []
  | some shell =>
    match buildrootShellMap.lookup shell with
    | none => []
    | some symbol =>
      [text "# --- Shell ---", symbol ++ text "=y"] ++
        (if shell = text "bash" then [text "BR2_PACKAGE_BASH=y"] else []) ++ [[]]

def packageLines (upper : Char → Text) (packages : List Text) : List Text :=
  if packages = [] then []
  else
    [text "# --- Packages ---"] ++
      (packages.mergeSort fun a b => decide (a ≤ b)).map (pkgSymbol upper · ++ text "=y") ++ [[]]

def passwordLines (password : Option Text) : List Text :=
  match password with
  | none => []
  | some password =>
    if password = [] then []
    else
      [text "# --- System ---",
       text "BR2_TARGET_GENERIC_ROOT_PASSWD=\"" ++ password ++ text "\"", []]

def genBuildrootConfig (upper : Char → Text) (cfg : BuildrootSettings) : Text :=
  let lines :=
    [text "# Auto-generated Buildroot config fragment — DO NOT EDIT",
     text "# Source: system.toml  ->  applied on top of qemu_riscv*_virt_defconfig",
     [],
     text "# All supported RV32/RV64 targets implement compressed instructions.",
     text "BR2_RISCV_ISA_RVC=y",
     [],
     text "# linux-build supplies the kernel, firmware and host emulator.",
     text "# BR2_LINUX_KERNEL is not set",
     text "# BR2_PACKAGE_HOST_QEMU is not set",
     [],
     text "# --- Output format ---",
     text "BR2_TARGET_ROOTFS_CPIO=y",
     if cfg.compression = text "zstd" then text "BR2_TARGET_ROOTFS_CPIO_ZSTD=y"
     else text "BR2_TARGET_ROOTFS_CPIO_GZIP=y",
     text "# Disable ext2 image (only need cpio)",
     text "# BR2_TARGET_ROOTFS_EXT2 is not set",
     [],
     text "# --- Raptor runtime baseline ---",
     text "BR2_PACKAGE_BUSYBOX=y",
     text "BR2_PACKAGE_BUSYBOX_CONFIG_FRAGMENT_FILES=\"" ++ cfg.baseline ++
       text "/busybox.fragment\"",
     text "BR2_ROOTFS_OVERLAY=\"" ++ cfg.baseline ++ text "/overlay\"",
     []] ++
    shellLines cfg.shell ++ packageLines upper cfg.packages ++ passwordLines cfg.rootPassword
  Python.join (text "\n") lines ++ text "\n"

/-! ## Read back by `ensure-rootfs.py` -/

/-- The pairs of `values`, in line order. -/
def values (data : Text) : List (Text × Text) :=
  (Python.splitlines data).filterMap fun line =>
    if Python.startswith line (text "BR2_") && line.contains '=' then
      some (Python.partition '=' line)
    else none

def integration : List Text :=
  [text "BR2_ROOTFS_OVERLAY", text "BR2_PACKAGE_BUSYBOX_CONFIG_FRAGMENT_FILES"]

def packagePrefix : Text := text "BR2_PACKAGE_"

/-- The test that keeps the tree: nothing of `old` is removed or changed, and
only packages are added. -/
def onlyAddsPackages (old config : Text) : Bool :=
  let before := values old
  let after := values config
  (before.all fun (k, _) =>
    integration.contains k || Python.dictGet after k == Python.dictGet before k) &&
  after.all fun (k, _) =>
    (Python.dictGet before k).isSome || integration.contains k ||
      (Python.startswith k packagePrefix && Python.dictGet after k == some (text "y"))

/-- The packages `values` finds enabled and the test looks at. -/
def valuesEnable (config symbol : Text) : Bool :=
  !integration.contains symbol && Python.dictGet (values config) symbol == some (text "y")

/-! ## Read by Buildroot -/

/-- What a line of a `.config` says of a symbol: set to `y` or not, or nothing. -/
def lineSets (symbol line : Text) : Option Bool :=
  let line := line.reverse.dropWhile (· = '\r') |>.reverse
  if line = symbol ++ text "=y" then some true
  else if Python.startswith line (symbol ++ text "=") then some false
  else if line = text "# " ++ symbol ++ text " is not set" then some false
  else none

/-- The last line that says something of the symbol enables it. -/
def enables (config symbol : Text) : Bool :=
  ((config.splitOn '\n').filterMap (lineSets symbol)).getLast? == some true

/-- `values` and Buildroot see the same packages. -/
def ReadAlike (config : Text) : Prop :=
  ∀ symbol, Python.startswith symbol packagePrefix = true →
    valuesEnable config symbol = enables config symbol

/-- If `values` is right about both fragments, a tree that is kept loses none
of the packages. -/
theorem enables_of_onlyAddsPackages {old config symbol : Text} (ho : ReadAlike old)
    (hc : ReadAlike config) (h : onlyAddsPackages old config = true)
    (hp : Python.startswith symbol packagePrefix = true) (he : enables old symbol = true) :
    enables config symbol = true := by
  rw [← ho symbol hp] at he
  rw [← hc symbol hp]
  simp only [valuesEnable, Bool.and_eq_true, Bool.not_eq_true', beq_iff_eq] at he ⊢
  obtain ⟨hnot, hy⟩ := he
  simp only [onlyAddsPackages, Bool.and_eq_true, List.all_eq_true] at h
  have hkept := h.1 _ (Python.mem_of_dictGet hy)
  simp only [hnot, Bool.false_or, beq_iff_eq] at hkept
  exact ⟨hnot, hkept.trans hy⟩

end LinuxBuild
