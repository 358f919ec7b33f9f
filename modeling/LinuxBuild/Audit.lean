import LinuxBuild.Cpio
import LinuxBuild.Extract
import LinuxBuild.Toml

/-!
# `extract_and_audit`

What the archive holds is compared with its manifest, and then audited.
`json.loads`, SHA-256, `gzip` and `debugfs` are whatever they are. A file is
read as UTF-8, and floats compare as their exact values.
-/

namespace LinuxBuild.Audit

open Extract Python

/-! ## Documents -/

/-- A number of a document is an integer or a float. -/
inductive Json where
  | null
  | bool (b : Bool)
  | number (x : Toml.Real)
  | string (s : Str)
  | array (items : List Json)
  | object (rows : List (Str × Json))

namespace Json

/-- `v[key]`. -/
def item (v : Json) (key : Str) : Except Raised Json :=
  match v with
  | .object rows => orRaise (dictGet rows key) .key
  | _ => .error .type

/-- `v.get(key)`. -/
def get (v : Json) (key : Str) : Except Raised (Option Json) :=
  match v with
  | .object rows => .ok (dictGet rows key)
  | _ => .error .attribute

/-- `v == s` for a string. -/
def isStr (v : Json) (s : Str) : Bool :=
  match v with
  | .string t => t = s
  | _ => false

/-- `v == n` for an integer. -/
def isInt (v : Json) (n : Int) : Bool :=
  match v with
  | .bool b => (if b then 1 else 0) = n
  | .number (.finite q) => q = n
  | _ => false

/-- The truth value. -/
def truthy : Json → Bool
  | .null => false
  | .bool b => b
  | .number (.finite q) => q ≠ 0
  | .number _ => true
  | .string s => s ≠ []
  | .array items => !items.isEmpty
  | .object rows => !rows.isEmpty

/-- Arithmetic and order take numbers only. -/
def real (v : Json) : Except Raised Toml.Real :=
  match v with
  | .bool b => .ok (.finite (if b then 1 else 0))
  | .number x => .ok x
  | _ => .error .type

end Json

/-- `a * x + b` for a positive `a`. -/
def scale (a b : Rat) : Toml.Real → Toml.Real
  | .finite q => .finite (a * q + b)
  | x => x

/-- `x > y`. -/
def greater : Toml.Real → Toml.Real → Bool
  | .finite p, .finite q => q < p
  | .finite _, .infinite negative => negative
  | .infinite negative, .finite _ => !negative
  | .infinite negative, .infinite negative' => !negative && negative'
  | _, _ => false

structure Tools where
  sha256 : Bytes → Str
  creatable : Str → Bool
  loads : Text → Option Json
  gunzip : Bytes → Option Bytes
  /-- `debugfs -R 'dump PATH FILE'` on a disk: what it writes to the file, if it
  succeeds. -/
  dump : Bytes → Text → Option (Option Bytes)

/-! ## Files -/

def readBytes (dir : Dir) (name : Str) : Except Raised Bytes :=
  match dir.lookup name with
  | some (.file content) => .ok content
  | _ => .error .os

def readText (dir : Dir) (name : Str) : Except Raised Text := do
  let bytes ← readBytes dir name
  orRaise ((Utf8.decodeStrict bytes).map universalNewlines) .decode

def readJson (tools : Tools) (dir : Dir) (name : Str) : Except Raised Json := do
  let text ← readText dir name
  orRaise (tools.loads text) .json

/-- `payload.find(image)`. -/
def find (payload image : Bytes) : Int :=
  match (List.range (payload.length + 1)).find? fun i => image.isPrefixOf (payload.drop i) with
  | some i => i
  | none => -1

/-- One word of `struct.unpack_from('<QQ', image, 8)`. -/
def unpack64 (body : Bytes) (offset : Nat) : Option Nat := do
  let low ← unpack32 body offset
  let high ← unpack32 body (offset + 4)
  return low + 0x100000000 * high

/-! ## The manifest -/

def manifestName : Str := str "manifest.json"

/-- `{name: h for name, h in hashes.items() if name != 'manifest.json'} == files`. -/
def sameFiles (hashes : List (Str × Str)) (files : Json) : Bool :=
  match files with
  | .object rows =>
    ((hashes.filter (·.1 ≠ manifestName)).all fun hash =>
      (dictGet rows hash.1).any (·.isStr hash.2)) &&
      rows.all fun row => (hashes.filter (·.1 ≠ manifestName)).any (·.1 = row.1)
  | _ => false

/-- The manifest of what was extracted, if the digests are those it lists. -/
def readManifest (tools : Tools) (x : Extraction) : Except Raised Json := do
  let manifest ← readJson tools x.dir manifestName
  let files ← manifest.item (str "files")
  require (sameFiles x.hashes files) (.value (str "archive file hashes differ from manifest"))
  pure manifest

/-! ## The audits -/

def isSha256 (s : Str) : Bool :=
  s.length = 64 && s.all fun c => 0x30 ≤ c && c ≤ 0x39 || 0x61 ≤ c && c ≤ 0x66

def checkSource (tools : Tools) (dir : Dir) (manifest : Json) : Except Raised Unit := do
  let differs := Raised.value (str "kernel source provenance differs from package")
  let source ← readJson tools dir (str "kernel-source.json")
  let kernelVersion ← manifest.item (str "kernel_version")
  match kernelVersion with
  | .string version => do
    let url := str "https://cdn.kernel.org/pub/linux/kernel/v" ++ version.takeWhile (· ≠ 0x2e) ++
      str ".x/linux-" ++ version ++ str ".tar.xz"
    let sourceVersion ← source.item (str "version")
    require (sourceVersion.isStr version) differs
    let archiveUrl ← source.item (str "archive_url")
    require (archiveUrl.isStr url) differs
    match ← source.item (str "sha256") with
    | .string sha => require (isSha256 sha) differs
    | _ => .error .type
  | _ => .error .attribute

def requireLine (config : List Text) (message line : String) : Except Raised Unit :=
  require (config.contains (text line)) (.value (str message ++ str line))

/-- The ELF checks of `distro_runtime.audit` on a dumped BusyBox. -/
def checkBusybox (path : Text) (body : Bytes) : Except Raised UserElf.Record := do
  let differs := Raised.value (str "distro BusyBox is not an RV64 ELF")
  require (body.take 5 = UserElf.elfMagic ++ [2]) differs
  let machine ← orRaise (unpack16 body 18) .struct
  require (machine = 243) differs
  let flags ← orRaise (unpack32 body 48) .struct
  require (flags &&& 6 = 4) (.value (str "distro BusyBox is not lp64d"))
  pure ⟨path, 64, flags⟩

def auditedName : Str := str "audited-busybox"

/-- The loop over the paths. A dump goes into a file beside the others. -/
def auditBusybox (tools : Tools) (dir : Dir) : List Text → Except Raised UserElf.Record
  | [] => .error (.value (str "cannot inspect distro BusyBox ELF"))
  | path :: paths => do
    let disk ← readBytes dir (str "rootfs.ext4")
    let dumped ← orRaise (tools.dump disk path) .process
    let dir := match dumped with
      | some body => (auditedName, Node.file body) :: dir
      | none => dir
    match dir.lookup auditedName with
    | some (.file body) => checkBusybox path body
    | _ => auditBusybox tools dir paths

/-- The rows of `m['files']` hold strings. -/
def sameEntry (a b : Json) : Bool :=
  match b with
  | .string s => a.isStr s
  | _ => false

/-- `distro_runtime.audit`. -/
def auditDistro (tools : Tools) (dir : Dir) (manifest : Json) : Except Raised UserElf.Record := do
  let config := splitlines (← readText dir (str "kernel.config"))
  ["CONFIG_HZ=100", "CONFIG_HZ_100=y", "CONFIG_MMU=y", "CONFIG_FPU=y", "CONFIG_RISCV_ISA_C=y",
    "CONFIG_EXT4_FS=y", "CONFIG_VIRTIO_BLK=y", "CONFIG_VIRTIO_NET=y", "CONFIG_DEVTMPFS_MOUNT=y",
    "CONFIG_INITRAMFS_SOURCE=\"\""].forM (requireLine config "missing distro kernel setting: ")
  let board := Raised.value (str "distro requires RV64GC/lp64d and 1 GiB")
  let bits ← manifest.item (str "bits")
  require (bits.isInt 64) board
  let abi ← manifest.item (str "abi")
  require (abi.isStr (str "lp64d")) board
  let memory ← manifest.item (str "memory_mib")
  require (memory.isInt 1024) board
  let record ← readJson tools dir (str "rootfs-manifest.json")
  let files ← manifest.item (str "files")
  [("rootfs_sha256", "rootfs.ext4"), ("kernel_sha256", "Image"),
    ("firmware_sha256", "fw_dynamic.bin"), ("build_log_sha256", "rootfs-build.log")].forM fun (key, name) => do
      let digest ← record.item (str key)
      let listed ← files.item (str name)
      require (sameEntry digest listed) (.value (str "rootfs provenance mismatch: " ++ str key))
  let evidence := Raised.value (str "missing native provisioning evidence")
  let builder ← record.item (str "builder")
  require (builder.isStr (str "qemu-system-riscv64")) evidence
  let packages ← record.item (str "packages")
  require packages.truthy evidence
  auditBusybox tools dir [text "/bin/busybox", text "/usr/bin/busybox"]

def checkRootfs (tools : Tools) (dir : Dir) (manifest : Json) : Except Raised Unit := do
  let differs := Raised.value (str "rootfs provenance does not verify the BusyBox baseline")
  let rootfs ← readJson tools dir (str "rootfs-manifest.json")
  let identity ← rootfs.item (str "identity")
  let schema ← identity.get (str "schema")
  require (schema.any (·.isInt 2)) differs
  let features ← rootfs.get (str "busybox_required_features")
  require (features.any Json.truthy) differs
  let digest ← rootfs.item (str "rootfs_sha256")
  let files ← manifest.item (str "files")
  let listed ← files.item (str "initramfs.cpio.gz")
  require (sameEntry digest listed) differs

def checkConfig (dir : Dir) (buildroot : Bool) : Except Raised Unit := do
  let config := splitlines (← readText dir (str "kernel.config"))
  ["CONFIG_HZ=100", "CONFIG_HZ_100=y", "CONFIG_MMU=y", "CONFIG_SERIAL_LITEUART=y",
    "CONFIG_SERIAL_LITEUART_CONSOLE=y"].forM (requireLine config "missing required configuration: ")
  require (config.contains (text "CONFIG_FPU=y") == buildroot)
    (.value (str "kernel FPU configuration differs from variant"))
  require (!(buildroot && !config.contains (text "CONFIG_FUTEX=y")))
    (.value (str "Buildroot is missing futex support"))

def checkMemory (dir : Dir) (manifest : Json) : Except Raised Unit := do
  let image ← readBytes dir (str "Image")
  let payload ← readBytes dir (str "fw_payload.bin")
  let kernelOffset ← manifest.item (str "payload_kernel_offset")
  require (kernelOffset.isInt (find payload image))
    (.value (str "firmware contains a different kernel"))
  let offset ← orRaise (unpack64 image 8) .struct
  let size ← orRaise (unpack64 image 16) .struct
  let fdt ← (← manifest.item (str "fdt_offset")).real
  require (!greater (.finite (offset + max size image.length : Nat)) fdt)
    (.value (str "DTB overlaps kernel memory"))
  let memory ← (← manifest.item (str "memory_mib")).real
  require (!greater (scale 1 65536 fdt) (scale 1048576 0 memory))
    (.value (str "DTB exceeds the configured RAM"))

/-- Everything before `user_elf`: the audit of a distribution, or the data of the
initramfs with the variant and the word size as far as `user_elf` looks at them. -/
def auditFiles (tools : Tools) (dir : Dir) (manifest : Json) :
    Except Raised (UserElf.Record ⊕ Bytes × Text × Nat) := do
  checkSource tools dir manifest
  let variant ← manifest.item (str "variant")
  if variant.isStr (str "alpine") || variant.isStr (str "debian") then
    return .inl (← auditDistro tools dir manifest)
  if variant.isStr (str "buildroot") then checkRootfs tools dir manifest
  checkConfig dir (variant.isStr (str "buildroot"))
  checkMemory dir manifest
  let bits ← manifest.item (str "bits")
  let initramfs ← readBytes dir (str "initramfs.cpio.gz")
  let data ← orRaise (tools.gunzip initramfs) .gzip
  return .inr (data, if variant.isStr (str "tiny_shell") then text "tiny_shell" else [],
    if bits.isInt 32 then 32 else 64)

/-- The manifest and `tested_user_elf`, if the loop of `user_elf` ends in `fuel`
turns. -/
def audit (tools : Tools) (fuel : Nat) (dir : Dir) (manifest : Json) :
    Option (Except Raised (Json × UserElf.Record)) :=
  match auditFiles tools dir manifest with
  | .error e => some (.error e)
  | .ok (.inl record) => some (.ok (manifest, record))
  | .ok (.inr (data, variant, bits)) =>
    (UserElf.userElf fuel variant bits data).map fun r =>
      match r.2 with
      | .error e => .error (.elf e)
      | .ok record => .ok (manifest, record)

/-- `archive.name.removesuffix('.tar.gz')`. -/
def rootOf (archiveName : Str) : Str :=
  if (str ".tar.gz").isSuffixOf archiveName then archiveName.take (archiveName.length - 7)
  else archiveName

/-- `extract_and_audit`, with what the loop leaves in the destination. -/
def extractAndAudit (tools : Tools) (fuel : Nat) (archiveName : Str) (tar : Tar) :
    Extraction × Option (Except Raised (Json × UserElf.Record)) :=
  match extract tools.sha256 tools.creatable (rootOf archiveName) tar with
  | (x, some e) => (x, some (.error e))
  | (x, none) =>
    (x, match readManifest tools x with
      | .error e => some (.error e)
      | .ok manifest => audit tools fuel x.dir manifest)

/-! ## What is accepted -/

theorem isStr_iff {v : Json} {s : Str} : v.isStr s = true ↔ v = .string s := by
  cases v <;> simp [Json.isStr]

/-- The rows of a manifest that agrees with a table: each digest of another file
is listed, and nothing else. -/
theorem sameFiles_spec {hashes : List (Str × Str)} {files : Json}
    (h : sameFiles hashes files = true) :
    ∃ rows, files = .object rows ∧
      (∀ name hash, (name, hash) ∈ hashes → name ≠ manifestName →
        dictGet rows name = some (.string hash)) ∧
      ∀ name, name ∈ rows.map (·.1) → name ∈ hashes.map (·.1) := by
  cases files with
  | object rows =>
    rw [sameFiles, Bool.and_eq_true, List.all_eq_true, List.all_eq_true] at h
    refine ⟨rows, rfl, fun name hash hmem hname => ?_, fun name hname => ?_⟩
    · have hrow := h.1 (name, hash) (List.mem_filter.mpr ⟨hmem, by simpa using hname⟩)
      rw [Option.any_eq_true] at hrow
      obtain ⟨v, hv, hstr⟩ := hrow
      cases v with
      | string s =>
        obtain rfl := of_decide_eq_true hstr
        exact hv
      | _ => cases hstr
    · obtain ⟨row, hrow, rfl⟩ := List.mem_map.mp hname
      have hlisted := h.2 row hrow
      rw [List.any_eq_true] at hlisted
      obtain ⟨hash, hmem, heq⟩ := hlisted
      rw [← of_decide_eq_true heq]
      exact List.mem_map_of_mem (List.mem_filter.mp hmem).1
  | _ => cases h

theorem mem_of_lookup_file {dir : Dir} {name : Str} {content : Bytes}
    (h : readBytes dir name = .ok content) : (name, .file content) ∈ dir := by
  rw [readBytes] at h
  split at h
  · rename_i hlookup
    cases h
    exact mem_of_lookup hlookup
  · cases h

theorem readManifest_spec {tools : Tools} {x : Extraction} {manifest : Json}
    (h : readManifest tools x = .ok manifest) :
    (∃ content, (manifestName, .file content) ∈ x.dir) ∧
      ∃ files, manifest.item (str "files") = .ok files ∧ sameFiles x.hashes files = true := by
  obtain ⟨m, hm, h⟩ := bind_ok h
  obtain ⟨files, hfiles, h⟩ := bind_ok h
  obtain ⟨_, hsame, h⟩ := bind_ok h
  cases h
  obtain ⟨text, htext, _⟩ := bind_ok hm
  obtain ⟨content, hcontent, _⟩ := bind_ok htext
  exact ⟨⟨content, mem_of_lookup_file hcontent⟩, files, hfiles, require_ok hsame⟩

/-- What is accepted has passed the comparison with its manifest. -/
theorem extractAndAudit_accepted {tools : Tools} {fuel : Nat} {archiveName : Str} {tar : Tar}
    {manifest : Json} {record : UserElf.Record}
    (h : (extractAndAudit tools fuel archiveName tar).2 = some (.ok (manifest, record))) :
    Recorded tools.sha256 (extractAndAudit tools fuel archiveName tar).1 ∧
      readManifest tools (extractAndAudit tools fuel archiveName tar).1 = .ok manifest := by
  rw [extractAndAudit] at h ⊢
  split at h
  · cases h
  · rename_i x hextract
    refine ⟨(extract_keeps hextract).2 rfl, ?_⟩
    dsimp only at h ⊢
    split at h
    · cases h
    · rename_i m hm
      rw [hm, Except.ok.injEq]
      rw [audit] at h
      split at h
      · cases h
      · cases h
        rfl
      · obtain ⟨r, _, hr⟩ := Option.map_eq_some_iff.mp h
        split at hr
        · cases hr
        · cases hr
          rfl

/-- Whatever the archive holds, the loop creates regular files that are direct
children of the destination, each once, and opens nothing else. If the archive is
accepted, they are the files of the manifest and the manifest itself, and the
manifest lists their digests. -/
theorem extract_and_audit_safe (tools : Tools) (fuel : Nat) (archiveName : Str) (tar : Tar) :
    Clean (extractAndAudit tools fuel archiveName tar).1 ∧
      ∀ manifest record,
        (extractAndAudit tools fuel archiveName tar).2 = some (.ok (manifest, record)) →
          ∃ rows, manifest.item (str "files") = .ok (.object rows) ∧
            (∀ name, name ∈ (extractAndAudit tools fuel archiveName tar).1.dir.map (·.1) ↔
              name ∈ rows.map (·.1) ∨ name = manifestName) ∧
            ∀ name content,
              (name, .file content) ∈ (extractAndAudit tools fuel archiveName tar).1.dir →
                name ≠ manifestName → dictGet rows name = some (.string (tools.sha256 content)) := by
  constructor
  · rw [extractAndAudit]
    split
    · rename_i hextract
      exact (extract_keeps hextract).1
    · rename_i hextract
      exact (extract_keeps hextract).1
  · intro manifest record haccepted
    obtain ⟨hrecorded, hread⟩ := extractAndAudit_accepted haccepted
    generalize (extractAndAudit tools fuel archiveName tar).1 = x at hrecorded hread ⊢
    obtain ⟨⟨content, hmanifest⟩, files, hfiles, hsame⟩ := readManifest_spec hread
    obtain ⟨rows, rfl, hlisted, honly⟩ := sameFiles_spec hsame
    have hnames := hrecorded.names
    refine ⟨rows, hfiles, fun name => ?_, fun name content hmem hname => ?_⟩
    · constructor
      · intro hmem
        by_cases hname : name = manifestName
        · exact .inr hname
        · rw [← hnames] at hmem
          obtain ⟨⟨n, hash⟩, hhash, rfl⟩ := List.mem_map.mp hmem
          exact .inl (List.mem_map_of_mem (mem_of_dictGet (hlisted n hash hhash hname)))
      · rintro (hmem | rfl)
        · exact hnames ▸ honly name hmem
        · exact List.mem_map_of_mem hmanifest
    · exact hlisted name _ (hrecorded.digest hmem) hname

/-! ## An archive that is accepted -/

/-- 24 bytes of kernel: no load offset, no size. -/
def sampleImage : Bytes := List.replicate 24 0

def sampleConfig : Bytes :=
  ascii "CONFIG_HZ=100\nCONFIG_HZ_100=y\nCONFIG_MMU=y\n" ++
    ascii "CONFIG_SERIAL_LITEUART=y\nCONFIG_SERIAL_LITEUART_CONSOLE=y\n"

def sampleFiles : List (String × Bytes) :=
  [("manifest.json", ascii "manifest"), ("kernel-source.json", ascii "source"),
    ("kernel.config", sampleConfig), ("Image", sampleImage), ("fw_payload.bin", sampleImage),
    ("initramfs.cpio.gz", Cpio.archive [Cpio.initEntry])]

/-- The directory, and its files with a spelling of their own for one name. -/
def sampleTar : Tar :=
  ⟨⟨str "p/", .directory, [], true⟩ :: sampleFiles.map fun (name, content) =>
    ⟨str (if name = "Image" then "./p//./Image" else "p/" ++ name), .regular, content, true⟩, true⟩

def sampleHash (bytes : Bytes) : Str := bytes.map UInt8.toNat

def sampleManifest : Json :=
  .object [(str "kernel_version", .string (str "6.1")), (str "variant", .string (str "tiny_shell")),
    (str "bits", .number (.finite 32)), (str "payload_kernel_offset", .number (.finite 0)),
    (str "fdt_offset", .number (.finite 65536)), (str "memory_mib", .number (.finite 1)),
    (str "files", .object ((sampleFiles.drop 1).map fun (name, content) =>
      (str name, .string (sampleHash content))))]

def sampleSource : Json :=
  .object [(str "version", .string (str "6.1")),
    (str "archive_url",
      .string (str "https://cdn.kernel.org/pub/linux/kernel/v6.x/linux-6.1.tar.xz")),
    (str "sha256", .string (List.replicate 64 0x30))]

def sampleTools : Tools where
  sha256 := sampleHash
  creatable _ := true
  loads t := if t = text "manifest" then some sampleManifest else some sampleSource
  gunzip := some
  dump _ _ := none

theorem extract_and_audit_accepts : ∃ manifest record rows,
    (extractAndAudit sampleTools 3 (str "p.tar.gz") sampleTar).2 = some (.ok (manifest, record)) ∧
      manifest.item (str "files") = .ok (.object rows) ∧ str "Image" ∈ rows.map (·.1) := by
  have hrun : ((extractAndAudit sampleTools 3 (str "p.tar.gz") sampleTar).2.any
      fun r => r.toOption.isSome) = true := by decide +kernel
  have himage : str "Image" ∈
      (extractAndAudit sampleTools 3 (str "p.tar.gz") sampleTar).1.dir.map (·.1) := by decide +kernel
  obtain ⟨r, hr, hok⟩ := (Option.any_eq_true _ _).mp hrun
  cases r with
  | error e => cases hok
  | ok accepted =>
    obtain ⟨rows, hrows, hnames, _⟩ :=
      (extract_and_audit_safe sampleTools 3 (str "p.tar.gz") sampleTar).2 accepted.1 accepted.2 hr
    exact ⟨accepted.1, accepted.2, rows, hr, hrows, ((hnames _).mp himage).resolve_right (by decide)⟩

end LinuxBuild.Audit
