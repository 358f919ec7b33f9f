import LinuxBuild.OpenSbi
import LinuxBuild.Provision
import LinuxBuild.StrictUtf8

/-!
# `scripts/package-artifacts.py` and `scripts/package-distro.py`

What a packager checks, and the package it stages.
-/

namespace LinuxBuild.Packages

open Repository Toml
open Python (orRaise require dictGet)

/-- `ap.error`, or an exception. -/
inductive Refusal where
  | error (message : Text)
  | raised

/-! ## Packages -/

/-- The firmware layout, of an embedded kernel only. -/
structure Layout where
  kernelAddress : Text
  kernelMemoryEnd : Text
  kernelMemorySize : Nat
  payloadKernelOffset : Nat
  fdtOffset : Int
  fdtAddress : Text

structure Manifest where
  schema : Nat
  preset : Text
  variant : Variant
  bits : Nat
  kernelVersion : Value
  kernelHz : Nat
  memoryMib : Value
  layout : Option Layout
  opensbiIsa : Text
  abi : Text
  buildInputs : InputMap
  sourceCommit : Text
  opensbiCommit : Text
  created : Rat
  boardTested : Bool
  files : List (Text × Hash)

/-- A package as it stands when it is staged: its files, and the manifest. -/
structure Staged where
  name : Text
  files : List (Text × Bytes)
  manifest : Manifest

/-! ## What is packaged -/

structure KernelDir where
  config : Bytes
  image : Bytes
  vmlinux : Bytes
  release : Bytes
  sourceRecord : Option Bytes

structure FirmwareDir where
  payloadBin : Bytes
  payloadElf : Bytes
  dynamicBin : Bytes

/-- What the packagers read of `initramfs{bits}-buildroot.manifest.json`. -/
structure RootfsRecord where
  schema : Option Nat
  busyboxRequiredFeatures : List Text
  rootfsSha256 : Hash

/-- The readers of the files, and the texts of the packages. -/
structure Readers where
  toml : Bytes → Option Value
  repr : Value → Text
  rootfsRecord : Bytes → Option RootfsRecord
  diskRecord : Bytes → Option Distro.Record
  readme : Manifest → Bytes

/-- The repository, its two commits and the time. -/
structure Surroundings where
  tree : Tree
  sourceCommit : Text
  opensbiCommit : Text
  created : Rat

/-- The arguments of `package-artifacts.py`. -/
structure Artifacts where
  name : Text
  kernel : KernelDir
  firmware : FirmwareDir
  initramfs : Bytes
  preset : Path
  variant : Variant
  isa : Text
  abi : Text
  fdtOffset : Int

/-- The arguments of `package-distro.py`, with the files beside the disk. -/
structure Disk where
  preset : Path
  disk : Bytes
  record : Bytes
  buildLog : Bytes
  kernel : KernelDir
  firmware : FirmwareDir

/-! ## The preset -/

/-- What `release_common.py` reads of a preset. -/
def view (repr : Value → Text) (cfg : Value) : Option Preset := do
  let arch ← ((← cfg.item? (text "target")).item? (text "arch")).bind Value.string?
  let version ← (← cfg.item? (text "kernel")).item? (text "version")
  let rootfs := (cfg.item? (text "rootfs")).getD (.table [])
  match rootfs with
  | .table rows =>
    return ⟨arch, version.str repr, (rows.lookup (text "type")).bind Value.string?,
      (cfg.item? (text "buildroot")).isSome⟩
  | _ => none

/-- `int(preset['target']['arch'].removeprefix('riscv'))`. -/
def archBits (preset : Value) : Option Nat := do
  let arch ← ((← preset.item? (text "target")).item? (text "arch")).bind Value.string?
  Python.int (Repository.archBits ⟨arch, [], none, false⟩)

def bootMemory (preset : Value) : Option Value :=
  (preset.item? (text "boot")).bind (·.item? (text "memory"))

/-- `preset.get('buildroot', {}).get('memory', 1024)`. -/
def buildrootMemory (preset : Value) : Option Value :=
  match (preset.item? (text "buildroot")).getD (.table []) with
  | .table rows => some ((rows.lookup (text "memory")).getD (.integer 1024))
  | _ => none

def memory (preset : Value) (variant : Variant) : Option Value :=
  if variant = .buildroot then buildrootMemory preset else bootMemory preset

/-- `need > memory * 1024 * 1024`, of a number. -/
def exceeds (need : Int) : Value → Option Bool
  | .integer n => some (need > n * 1024 * 1024)
  | .boolean b => some (need > (if b then 1 else 0) * 1024 * 1024)
  | .float (.finite q) => some (decide ((need : Rat) > q * 1024 * 1024))
  | .float (.infinite negative) => some negative
  | .float .nan => some false
  | _ => none

/-! ## `package-artifacts.py` -/

/-- `Path(name).name == name`, and neither `.` nor `..`. -/
def isBasename (name : Text) : Bool := !name.contains '/' && name != text "." && name != text ".."

/-- `read_text()`. -/
def readText? (file : Bytes) : Option Text :=
  (Utf8.decodeStrict file).map Python.universalNewlines

/-- The lines of a text file. A file that cannot be read has none. -/
def readLines (file : Bytes) : List Text := ((readText? file).map Python.splitlines).getD []

theorem readLines_eq {file : Bytes} {t : Text} (h : readText? file = some t) :
    readLines file = Python.splitlines t := by
  rw [readLines, h]
  rfl

def configValues (config : Text) : List (Text × Text) :=
  (Python.splitlines config).filterMap fun line =>
    if Python.startswith line (text "CONFIG_") && line.contains '=' then
      some (Python.partition '=' line)
    else none

/-- `data.find(image)`. -/
def find (image : Bytes) : Bytes → Option Nat
  | [] => if image.isEmpty then some 0 else none
  | b :: data => if image.isPrefixOf (b :: data) then some 0 else (find image data).map (· + 1)

def rootfsManifest (bits : Nat) : Path :=
  [text "initramfs" ++ Nat.toDigits 10 bits ++ text "-buildroot.manifest.json"]

def hexText (n : Int) : Text := text (OpenSbi.hex n.toNat)

def kernelBase : Int := 0x80000000

variable (readers : Readers) (sha : Digest Bytes)

/-- The record of a Buildroot root file system belongs to it. -/
def checkRootfs (w : Surroundings) (a : Artifacts) (bits : Nat) : Except Refusal Unit :=
  if a.variant = .buildroot then do
    let record ← orRaise ((w.tree.file? (rootfsManifest bits)).bind readers.rootfsRecord) .raised
    require (record.schema == some 2 && !record.busyboxRequiredFeatures.isEmpty)
      (.error (text "rootfs predates the verified BusyBox configuration policy; rebuild it"))
    require (record.rootfsSha256 = sha.hash a.initramfs)
      (.error (text "rootfs differs from its build provenance"))
  else .ok ()

/-- The checks of the built configuration; the timer frequency it has. -/
def checkConfig (preset : Value) (a : Artifacts) : Except Refusal Nat := do
  let config ← orRaise (readText? a.kernel.config) .raised
  let cfg := configValues config
  let hz ← orRaise ((dictGet cfg (text "CONFIG_HZ")).bind Python.int) .raised
  let kernel ← orRaise (preset.item? (text "kernel")) .raised
  let wanted ← orRaise ((kernel.item? (text "config")).bind (·.item? (text "HZ"))) .raised
  require (wanted.isInt hz) (.error (text "built HZ differs from the preset"))
  let fpu := dictGet cfg (text "CONFIG_FPU") == some (text "y")
  require (fpu == (a.variant == .buildroot))
    (.error (text "kernel FPU configuration differs from the packaged variant"))
  [text "CONFIG_SERIAL_LITEUART", text "CONFIG_SERIAL_LITEUART_CONSOLE", text "CONFIG_MMU"].forM
    fun symbol => require (dictGet cfg symbol == some (text "y"))
      (.error (symbol ++ text " is required for the Raptor image"))
  require (a.variant != .buildroot || dictGet cfg (text "CONFIG_FUTEX") == some (text "y"))
    (.error (text "Buildroot must retain futex support"))
  return hz

/-- The image is in the firmware where its header says. -/
def checkPayload (a : Artifacts) : Except Refusal Unit := do
  require (24 ≤ a.kernel.image.length) .raised
  require (find a.kernel.image a.firmware.payloadBin = some (OpenSbi.textOffset a.kernel.image))
    (.error (text "OpenSBI does not contain the expected Image at its load offset"))

/-- Whether the kernel and the device tree fit the RAM. -/
def checkLayout (a : Artifacts) (ram : Value) : Except Refusal Layout := do
  let image := a.kernel.image
  let textOffset := OpenSbi.textOffset image
  let memorySize := OpenSbi.memorySize image
  let tooLarge := Refusal.error (text "kernel/DTB layout exceeds the declared RAM or overlaps")
  let top : Int := textOffset + max memorySize image.length
  require (top ≤ a.fdtOffset) tooLarge
  let outside ← orRaise (exceeds (a.fdtOffset + 65536) ram) .raised
  require (!outside) tooLarge
  return ⟨hexText (kernelBase + textOffset), hexText (kernelBase + top), memorySize, textOffset,
    a.fdtOffset, hexText (kernelBase + a.fdtOffset)⟩

/-- `{p.name: sha(p) for p in sorted(stage.iterdir())}`. -/
def fileHashes (files : List (Text × Bytes)) : List (Text × Hash) :=
  (files.mergeSort fun a b => decide (a.1 ≤ b.1)).map fun file => (file.1, sha.hash file.2)

/-- The package of staged files: its manifest has their hashes. -/
def staged (name : Text) (files : List (Text × Bytes)) (m : Manifest) : Staged :=
  ⟨name, files, { m with files := fileHashes sha files }⟩

def artifacts (w : Surroundings) (a : Artifacts) : Except Refusal Staged := do
  require (!a.variant.isDistro) (.error (text "argument --variant: invalid choice"))
  require (isBasename a.name) (.error (text "package name must be a basename"))
  let content ← orRaise (w.tree.file? a.preset) .raised
  let preset ← orRaise (readers.toml content) .raised
  let bits ← orRaise (archBits preset) .raised
  let hz ← checkConfig preset a
  checkRootfs readers sha w a bits
  checkPayload a
  let ram ← orRaise (memory preset a.variant) .raised
  let layout ← checkLayout a ram
  let inputs ← orRaise (buildInputs sha w.tree a.variant a.preset) .raised
  let kernel ← orRaise (preset.item? (text "kernel")) .raised
  let version ← orRaise (kernel.item? (text "version")) .raised
  -- `Path('').name == ''`, but the staging directory of that name is there already
  require (!a.name.isEmpty) .raised
  let m : Manifest :=
    { schema := 1, preset := stem a.preset, variant := a.variant, bits := bits,
      kernelVersion := version, kernelHz := hz, memoryMib := ram, layout := some layout,
      opensbiIsa := a.isa, abi := a.abi, buildInputs := inputs, sourceCommit := w.sourceCommit,
      opensbiCommit := w.opensbiCommit, created := w.created, boardTested := false, files := [] }
  let files :=
    [(text "fw_payload.bin", a.firmware.payloadBin), (text "fw_payload.elf", a.firmware.payloadElf),
     (text "fw_dynamic.bin", a.firmware.dynamicBin), (text "Image", a.kernel.image),
     (text "vmlinux", a.kernel.vmlinux), (text "kernel.config", a.kernel.config),
     (text "initramfs.cpio.gz", a.initramfs), (text "preset.toml", content)] ++
    (a.kernel.sourceRecord.map fun file => (text "kernel-source.json", file)).toList ++
    (if a.variant = .buildroot then
      ((w.tree.file? (rootfsManifest bits)).map fun file => (text "rootfs-manifest.json", file)).toList
     else []) ++
    [(text "README.md", readers.readme m)]
  return staged sha a.name files m

/-! ## `package-distro.py` -/

/-- The lines the kernel configuration must have. -/
def distroConfig : List Text :=
  [text "CONFIG_FPU=y", text "CONFIG_RISCV_ISA_C=y", text "CONFIG_MMU=y", text "CONFIG_HZ=100",
   text "CONFIG_EXT4_FS=y", text "CONFIG_VIRTIO_BLK=y", text "CONFIG_VIRTIO_NET=y",
   text "CONFIG_DEVTMPFS_MOUNT=y", text "CONFIG_INITRAMFS_SOURCE=\"\""]

/-- `run-qemu.sh`. -/
def launch : Bytes :=
  ["#!/bin/sh", "set -eu", "cd \"$(dirname \"$0\")\"",
   "exec qemu-system-riscv64 -M virt -cpu rv64,h=false,sstc=false,svadu=false \\",
   "  -m 1024M -nographic -bios fw_dynamic.bin -kernel Image \\",
   "  -drive file=rootfs.ext4,format=raw,if=none,id=rootfs \\",
   "  -device virtio-blk-device,drive=rootfs \\",
   "  -netdev user,id=net0,hostfwd=tcp:127.0.0.1:$\x7bSSH_PORT:-2222\x7d-:22 \\",
   "  -device virtio-net-device,netdev=net0 \\",
   "  -append 'root=/dev/vda rootfstype=ext4 rw rootwait init=/sbin/raptor-init " ++
     "console=ttyS0 earlycon=sbi'"].flatMap fun line => ascii line ++ [lf]

def distroVariant : Distro.Kind → Variant
  | .alpine => .alpine
  | .debian => .debian

/-- The disk is the one that was constructed, with the kernel and the firmware
that are packaged. -/
def checkDisk (a : Disk) : Except Refusal Unit := do
  let rootfs ← orRaise (readers.diskRecord a.record) .raised
  require (sha.hash a.disk = rootfs.rootfsSha256)
    (.error (text "release disk was modified since construction"))
  require (sha.hash a.kernel.image = rootfs.kernelSha256 &&
      sha.hash a.firmware.dynamicBin = rootfs.firmwareSha256 &&
      sha.hash a.buildLog = rootfs.buildLogSha256)
    (.error
      (text "kernel, firmware or provisioning log changed since clean disk construction"))

def distro (w : Surroundings) (a : Disk) : Except Refusal Staged := do
  let content ← orRaise (w.tree.file? a.preset) .raised
  let cfg ← orRaise (readers.toml content) .raised
  let type ← orRaise ((cfg.item? (text "rootfs")).bind (·.item? (text "type"))) .raised
  let arch ← orRaise ((cfg.item? (text "target")).bind (·.item? (text "arch"))) .raised
  let unsupported := Refusal.error (text "unsupported distribution target")
  require (arch.isText (text "riscv64")) unsupported
  let variant := distroVariant (← orRaise (Distro.kindOf type) unsupported)
  let name := packageName a.preset (← orRaise (view readers.repr cfg) .raised) variant
  checkDisk readers sha a
  let config ← orRaise (readText? a.kernel.config) .raised
  require (distroConfig.all (Python.splitlines config).contains)
    (.error (text "kernel lacks required distribution disk configuration"))
  let version := Python.strip (← orRaise (readText? a.kernel.release) .raised)
  let kernel ← orRaise (cfg.item? (text "kernel")) .raised
  let wanted ← orRaise (kernel.item? (text "version")) .raised
  require (wanted.isText version)
    (.error (text "kernel version " ++ version ++ text " differs from preset"))
  let ram ← orRaise (bootMemory cfg) .raised
  let inputs ← orRaise (buildInputs sha w.tree variant a.preset) .raised
  let m : Manifest :=
    { schema := 2, preset := stem a.preset, variant := variant, bits := 64,
      kernelVersion := .string version, kernelHz := 100, memoryMib := ram, layout := none,
      opensbiIsa := text "rv64imafdc_zicntr_zicsr_zifencei", abi := text "lp64d",
      buildInputs := inputs, sourceCommit := w.sourceCommit, opensbiCommit := w.opensbiCommit,
      created := w.created, boardTested := false, files := [] }
  let files :=
    [(text "rootfs.ext4", a.disk), (text "rootfs-manifest.json", a.record),
     (text "rootfs-build.log", a.buildLog), (text "Image", a.kernel.image),
     (text "vmlinux", a.kernel.vmlinux), (text "kernel.config", a.kernel.config),
     (text "fw_dynamic.bin", a.firmware.dynamicBin), (text "preset.toml", content)] ++
    (a.kernel.sourceRecord.map fun file => (text "kernel-source.json", file)).toList ++
    [(text "run-qemu.sh", launch), (text "README.md", readers.readme m)]
  return staged sha name files m

/-- A run of one of the packagers, up to its first act in the release directory. -/
inductive Job where
  | artifacts (a : Artifacts)
  | distro (a : Disk)

def Job.package (w : Surroundings) : Job → Except Refusal Staged
  | .artifacts a => Packages.artifacts readers sha w a
  | .distro a => Packages.distro readers sha w a

def Job.preset : Job → Path
  | .artifacts a => a.preset
  | .distro a => a.preset

/-! ## What a manifest has from its preset -/

variable {readers sha}

/-- What `package-artifacts.py` had read when it wrote a manifest. -/
structure ImageRead (readers : Readers) (sha : Digest Bytes) (w : Surroundings) (a : Artifacts)
    (m : Manifest) (cfg : Value) : Prop where
  toml : (w.tree.file? a.preset).bind readers.toml = some cfg
  image : a.variant.isDistro = false
  preset : m.preset = stem a.preset
  variant : m.variant = a.variant
  bits : archBits cfg = some m.bits
  config : checkConfig cfg a = .ok m.kernelHz
  memory : memory cfg a.variant = some m.memoryMib
  inputs : buildInputs sha w.tree a.variant a.preset = some m.buildInputs
  version : (cfg.item? (text "kernel")).bind (·.item? (text "version")) = some m.kernelVersion

theorem artifacts_read {w : Surroundings} {a : Artifacts} {p : Staged}
    (h : artifacts readers sha w a = .ok p) : ∃ cfg, ImageRead readers sha w a p.manifest cfg := by
  obtain ⟨_, himage, h⟩ := Python.bind_ok h
  obtain ⟨_, _, h⟩ := Python.bind_ok h
  obtain ⟨content, hcontent, h⟩ := Python.bind_ok h
  obtain ⟨preset, hpreset, h⟩ := Python.bind_ok h
  obtain ⟨bits, hbits, h⟩ := Python.bind_ok h
  obtain ⟨hz, hconfig, h⟩ := Python.bind_ok h
  obtain ⟨_, _, h⟩ := Python.bind_ok h
  obtain ⟨_, _, h⟩ := Python.bind_ok h
  obtain ⟨ram, hram, h⟩ := Python.bind_ok h
  obtain ⟨layout, _, h⟩ := Python.bind_ok h
  obtain ⟨inputs, hinputs, h⟩ := Python.bind_ok h
  obtain ⟨kernel, hkernel, h⟩ := Python.bind_ok h
  obtain ⟨version, hversion, h⟩ := Python.bind_ok h
  obtain ⟨_, _, h⟩ := Python.bind_ok h
  cases h
  refine ⟨preset, ?_, by simpa using Python.require_ok himage, rfl, rfl, Python.orRaise_ok hbits,
    hconfig, Python.orRaise_ok hram, Python.orRaise_ok hinputs, ?_⟩
  · rw [Python.orRaise_ok hcontent, Option.bind_some, Python.orRaise_ok hpreset]
  · rw [Python.orRaise_ok hkernel, Option.bind_some, Python.orRaise_ok hversion]
    rfl

theorem archBits_rv64 {cfg : Value}
    (h : (cfg.item? (text "target")).bind (·.item? (text "arch")) = some (.string (text "riscv64"))) :
    archBits cfg = some 64 := by
  obtain ⟨target, htarget, harch⟩ := Option.bind_eq_some_iff.mp h
  simp only [archBits, htarget, Option.bind_eq_bind, Option.bind_some, harch, Value.string?]
  decide

/-- What `package-distro.py` had read when it wrote a manifest. -/
structure DiskRead (readers : Readers) (sha : Digest Bytes) (w : Surroundings) (a : Disk)
    (m : Manifest) (cfg : Value) (kind : Distro.Kind) : Prop where
  toml : (w.tree.file? a.preset).bind readers.toml = some cfg
  type : ((cfg.item? (text "rootfs")).bind (·.item? (text "type"))).bind Distro.kindOf = some kind
  preset : m.preset = stem a.preset
  variant : m.variant = distroVariant kind
  bits : archBits cfg = some m.bits
  timer : m.kernelHz = 100
  memory : bootMemory cfg = some m.memoryMib
  inputs : buildInputs sha w.tree m.variant a.preset = some m.buildInputs
  version : (cfg.item? (text "kernel")).bind (·.item? (text "version")) = some m.kernelVersion

theorem distro_read {w : Surroundings} {a : Disk} {p : Staged}
    (h : distro readers sha w a = .ok p) :
    ∃ cfg kind, DiskRead readers sha w a p.manifest cfg kind := by
  obtain ⟨content, hcontent, h⟩ := Python.bind_ok h
  obtain ⟨preset, hpreset, h⟩ := Python.bind_ok h
  obtain ⟨type, htype, h⟩ := Python.bind_ok h
  obtain ⟨arch, harch, h⟩ := Python.bind_ok h
  obtain ⟨_, hrv64, h⟩ := Python.bind_ok h
  obtain ⟨kind, hkind, h⟩ := Python.bind_ok h
  obtain ⟨view, _, h⟩ := Python.bind_ok h
  obtain ⟨_, _, h⟩ := Python.bind_ok h
  obtain ⟨_, _, h⟩ := Python.bind_ok h
  obtain ⟨_, _, h⟩ := Python.bind_ok h
  obtain ⟨_, _, h⟩ := Python.bind_ok h
  obtain ⟨kernel, hkernel, h⟩ := Python.bind_ok h
  obtain ⟨wanted, hwanted, h⟩ := Python.bind_ok h
  obtain ⟨_, hversion, h⟩ := Python.bind_ok h
  obtain ⟨ram, hram, h⟩ := Python.bind_ok h
  obtain ⟨inputs, hinputs, h⟩ := Python.bind_ok h
  cases h
  have harch64 := Value.isText_eq (Python.require_ok hrv64)
  have hbuilt := Value.isText_eq (Python.require_ok hversion)
  refine ⟨preset, kind, ?_, ?_, rfl, rfl, archBits_rv64 (harch64 ▸ Python.orRaise_ok harch), rfl,
    Python.orRaise_ok hram, Python.orRaise_ok hinputs, ?_⟩
  · rw [Python.orRaise_ok hcontent, Option.bind_some, Python.orRaise_ok hpreset]
  · rw [Python.orRaise_ok htype, Option.bind_some, Python.orRaise_ok hkind]
  · rw [Python.orRaise_ok hkernel, Option.bind_some, Python.orRaise_ok hwanted, hbuilt]
    rfl

/-- What a manifest takes from its preset. -/
structure Reads (cfg : Value) (m : Manifest) : Prop where
  bits : archBits cfg = some m.bits
  version : (cfg.item? (text "kernel")).bind (·.item? (text "version")) = some m.kernelVersion
  memory : memory cfg m.variant = some m.memoryMib

theorem ImageRead.reads {w : Surroundings} {a : Artifacts} {m : Manifest} {cfg : Value}
    (h : ImageRead readers sha w a m cfg) : Reads cfg m :=
  ⟨h.bits, h.version, h.variant ▸ h.memory⟩

theorem DiskRead.reads {w : Surroundings} {a : Disk} {m : Manifest} {cfg : Value}
    {kind : Distro.Kind} (h : DiskRead readers sha w a m cfg kind) : Reads cfg m := by
  refine ⟨h.bits, h.version, ?_⟩
  have hmemory : Packages.memory cfg (distroVariant kind) = bootMemory cfg := by
    cases kind <;> rfl
  rw [h.variant, hmemory, h.memory]

theorem artifacts_reads {w : Surroundings} {a : Artifacts} {p : Staged} {cfg : Value}
    (hcfg : (w.tree.file? a.preset).bind readers.toml = some cfg)
    (h : artifacts readers sha w a = .ok p) : Reads cfg p.manifest := by
  obtain ⟨preset, hread⟩ := artifacts_read h
  cases hread.toml.symm.trans hcfg
  exact hread.reads

theorem distro_reads {w : Surroundings} {a : Disk} {p : Staged} {cfg : Value}
    (hcfg : (w.tree.file? a.preset).bind readers.toml = some cfg)
    (h : distro readers sha w a = .ok p) : Reads cfg p.manifest := by
  obtain ⟨preset, kind, hread⟩ := distro_read h
  cases hread.toml.symm.trans hcfg
  exact hread.reads

theorem package_reads {w : Surroundings} {job : Job} {p : Staged} {cfg : Value}
    (hcfg : (w.tree.file? job.preset).bind readers.toml = some cfg)
    (h : job.package readers sha w = .ok p) : Reads cfg p.manifest := by
  cases job with
  | artifacts a => exact artifacts_reads hcfg h
  | distro a => exact distro_reads hcfg h

/-- A packager records the inputs of the tree it runs in. -/
theorem package_inputs {w : Surroundings} {job : Job} {p : Staged}
    (h : job.package readers sha w = .ok p) :
    ∃ variant, buildInputs sha w.tree variant job.preset = some p.manifest.buildInputs := by
  cases job with
  | artifacts a =>
    obtain ⟨_, hread⟩ := artifacts_read h
    exact ⟨_, hread.inputs⟩
  | distro a =>
    obtain ⟨_, _, hread⟩ := distro_read h
    exact ⟨_, hread.inputs⟩

end LinuxBuild.Packages
