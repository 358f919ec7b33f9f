import LinuxBuild.PackagedAudit

/-!
# The audit of a distribution package

The record of the disk speaks of the four files the packager compared with it, so
the audit compares what is equal already. It looks at the disk itself.
-/

namespace LinuxBuild.PackagedAudit

open Extract Python Packages Audit PackagedArchive Repository
open Publish (archiveName)
open Toml (Value)

/-! ## What `package-distro.py` has checked -/


/-- The files a distribution package can have. -/
def diskNames : List Text :=
  [text "rootfs.ext4", text "rootfs-manifest.json", text "rootfs-build.log", text "Image",
   text "vmlinux", text "kernel.config", text "fw_dynamic.bin", text "preset.toml",
   text "kernel-source.json", text "run-qemu.sh", text "README.md", text "manifest.json"]

/-- A staged distribution package, with the checks it has passed. -/
structure DiskStaged (readers : Readers) (sha : Digest Bytes) (a : Disk) (p : Staged) : Prop where
  variant : p.manifest.variant.isDistro = true
  bits : p.manifest.bits = 64
  abi : p.manifest.abi = text "lp64d"
  read_text : ∃ t, readText? a.kernel.config = some t
  config : distroConfig ⊆ readLines a.kernel.config
  record : ∃ record, readers.diskRecord a.record = some record ∧
    record.rootfsSha256 = sha.hash a.disk ∧ record.kernelSha256 = sha.hash a.kernel.image ∧
    record.firmwareSha256 = sha.hash a.firmware.dynamicBin ∧
    record.buildLogSha256 = sha.hash a.buildLog
  hashes : p.manifest.files = fileHashes sha p.files
  names : ∀ manifest, ((contents p manifest).map (·.1)).Sublist diskNames
  disk : (text "rootfs.ext4", a.disk) ∈ p.files
  provenance : (text "rootfs-manifest.json", a.record) ∈ p.files
  log : (text "rootfs-build.log", a.buildLog) ∈ p.files
  kernel : (text "Image", a.kernel.image) ∈ p.files
  settings : (text "kernel.config", a.kernel.config) ∈ p.files
  firmware : (text "fw_dynamic.bin", a.firmware.dynamicBin) ∈ p.files
  source : ∀ file, (text "kernel-source.json", file) ∈ p.files ↔ a.kernel.sourceRecord = some file

theorem checkDisk_ok {readers : Readers} {sha : Digest Bytes} {a : Disk}
    (h : checkDisk readers sha a = .ok ()) :
    ∃ record, readers.diskRecord a.record = some record ∧
      record.rootfsSha256 = sha.hash a.disk ∧ record.kernelSha256 = sha.hash a.kernel.image ∧
      record.firmwareSha256 = sha.hash a.firmware.dynamicBin ∧
      record.buildLogSha256 = sha.hash a.buildLog := by
  obtain ⟨record, hrecord, h⟩ := bind_ok h
  obtain ⟨_, hdisk, h⟩ := bind_ok h
  have hrest := require_ok h
  simp only [Bool.and_eq_true, decide_eq_true_eq] at hrest
  obtain ⟨⟨hkernel, hfirmware⟩, hlog⟩ := hrest
  exact ⟨record, orRaise_ok hrecord, (of_decide_eq_true (require_ok hdisk)).symm, hkernel.symm,
    hfirmware.symm, hlog.symm⟩

theorem diskStaged {readers : Readers} {sha : Digest Bytes} {w : Surroundings} {a : Disk} {p : Staged}
    (h : distro readers sha w a = .ok p) : DiskStaged readers sha a p := by
  obtain ⟨content, _, h⟩ := bind_ok h
  obtain ⟨cfg, _, h⟩ := bind_ok h
  obtain ⟨type, _, h⟩ := bind_ok h
  obtain ⟨arch, _, h⟩ := bind_ok h
  obtain ⟨_, _, h⟩ := bind_ok h
  obtain ⟨kind, _, h⟩ := bind_ok h
  obtain ⟨view, _, h⟩ := bind_ok h
  obtain ⟨_, hdisk, h⟩ := bind_ok h
  obtain ⟨t, ht, h⟩ := bind_ok h
  obtain ⟨_, hconfig, h⟩ := bind_ok h
  obtain ⟨_, _, h⟩ := bind_ok h
  obtain ⟨kernel, _, h⟩ := bind_ok h
  obtain ⟨wanted, _, h⟩ := bind_ok h
  obtain ⟨_, _, h⟩ := bind_ok h
  obtain ⟨ram, _, h⟩ := bind_ok h
  obtain ⟨inputs, _, h⟩ := bind_ok h
  cases h
  constructor
  · cases kind <;> rfl
  · rfl
  · rfl
  · exact ⟨t, orRaise_ok ht⟩
  · intro line hline
    rw [readLines_eq (orRaise_ok ht)]
    exact contains_iff.mp (List.all_eq_true.mp (require_ok hconfig) line hline)
  · exact checkDisk_ok hdisk
  · rfl
  · intro manifest
    simp only [contents, staged, List.map_append]
    exact (((List.Sublist.refl _).append (toList_names _ _ id)).append (List.Sublist.refl _)).append
      (List.Sublist.refl _)
  all_goals simp [staged]
  intro file
  simp [text]

/-- `json.loads` of the record of a disk, against what the packager reads of it. -/
structure SameDisk (v : Json) (record : Distro.Record) : Prop where
  rootfs : v.item (str "rootfs_sha256") = .ok (.string record.rootfsSha256)
  kernel : v.item (str "kernel_sha256") = .ok (.string record.kernelSha256)
  firmware : v.item (str "firmware_sha256") = .ok (.string record.firmwareSha256)
  log : v.item (str "build_log_sha256") = .ok (.string record.buildLogSha256)
  builder : v.item (str "builder") = .ok (.string (toStr record.builder))
  packages : ∃ packages, v.item (str "packages") = .ok packages ∧
    (packages.truthy = true ↔ record.packages ≠ [])

/-- The first of the paths that is on the disk is a BusyBox for RV64/lp64d. -/
inductive Inspected (tools : Tools) (disk : Bytes) : List Text → Prop
  | here {path : Text} {paths : List Text} {body : Bytes} {record : UserElf.Record}
      (dumped : tools.dump disk path = some (some body))
      (sound : checkBusybox path body = .ok record) : Inspected tools disk (path :: paths)
  | next {path : Text} {paths : List Text} (dumped : tools.dump disk path = some none)
      (rest : Inspected tools disk paths) : Inspected tools disk (path :: paths)

/-- What the audit of a distribution package asks beyond the packager's checks. -/
structure DiskLeft (tools : Tools) (readers : Readers) (a : Disk) (m : Manifest) : Prop where
  source : SourceLeft tools a.kernel m
  timer : text "CONFIG_HZ_100=y" ∈ readLines a.kernel.config
  memory : m.memoryMib.isInt 1024 = true
  provisioned : ∃ record, readers.diskRecord a.record = some record ∧
    record.builder = text "qemu-system-riscv64" ∧ record.packages ≠ []
  busybox : Inspected tools a.disk [text "/bin/busybox", text "/usr/bin/busybox"]

section

variable {tools : Tools} {readers : Readers} {sha : Digest Bytes} {w : Surroundings} {a : Disk}
  {p : Staged} {manifest : Bytes} {doc : Json} {dir : Dir}

theorem DiskStaged.separate (h : DiskStaged readers sha a p) (manifest : Bytes) :
    Separate (contents p manifest) :=
  separate_of_sublist (h.names manifest) (by decide +kernel) (children_of_all (by decide +kernel))

theorem auditBusybox_iff {disk : Bytes} {paths : List Text}
    (hdisk : readBytes dir (str "rootfs.ext4") = .ok disk) (hfresh : dir.lookup auditedName = none) :
    (∃ record, auditBusybox tools dir paths = .ok record) ↔ Inspected tools disk paths := by
  induction paths with
  | nil =>
    constructor
    · rintro ⟨_, h⟩
      cases h
    · intro h
      cases h
  | cons path paths ih =>
    simp only [auditBusybox, hdisk, bind_eq_ok, Except.ok.injEq, exists_eq_left', orRaise_eq_ok]
    constructor
    · rintro ⟨record, dumped, hdumped, h⟩
      cases dumped with
      | none =>
        simp only [hfresh] at h
        exact .next hdumped (ih.mp ⟨record, h⟩)
      | some body =>
        simp only [List.lookup_cons_self] at h
        exact .here hdumped h
    · intro h
      cases h with
      | here hdumped hsound => exact ⟨_, _, hdumped, by simpa only [List.lookup_cons_self] using hsound⟩
      | next hdumped hrest =>
        obtain ⟨record, hrecord⟩ := ih.mpr hrest
        exact ⟨record, none, hdumped, by simpa only [hfresh] using hrecord⟩

theorem isInt_ofValue {v : Value} {x : Json} {n : Int} (h : ofValue v = some x) :
    x.isInt n = v.isInt n := by
  rw [Bool.eq_iff_iff]
  cases v with
  | integer m =>
    cases h
    simp [Json.isInt, Toml.Value.isInt]
  | boolean b =>
    cases h
    cases b <;> simp only [Json.isInt, Toml.Value.isInt, decide_eq_true_eq, beq_iff_eq] <;>
      exact eq_comm
  | float y =>
    cases h
    cases y <;> simp [Json.isInt, Toml.Value.isInt]
  | string t =>
    cases h
    exact Iff.rfl
  | moment t => cases h
  | array items =>
    obtain ⟨_, _, rfl⟩ := Option.map_eq_some_iff.mp h
    exact Iff.rfl
  | table rows =>
    obtain ⟨_, _, rfl⟩ := Option.map_eq_some_iff.mp h
    exact Iff.rfl

/-- The audit of a disk: what the packager has not looked at. -/
theorem DiskStaged.auditDistro_iff (h : DiskStaged readers sha a p)
    (hextracted : Extracted dir (contents p manifest)) (hdoc : document p.manifest = some doc)
    (hsame : ∀ file record, readers.diskRecord file = some record →
      ∃ v, jsonOf tools file = some v ∧ SameDisk v record) :
    (∃ record, auditDistro tools dir doc = .ok record) ↔
      text "CONFIG_HZ_100=y" ∈ readLines a.kernel.config ∧ p.manifest.memoryMib.isInt 1024 = true ∧
      (∃ record, readers.diskRecord a.record = some record ∧
        record.builder = text "qemu-system-riscv64" ∧ record.packages ≠ []) ∧
      Inspected tools a.disk [text "/bin/busybox", text "/usr/bin/busybox"] := by
  have hrows := rows_of_document hdoc
  have hmem : ∀ file ∈ p.files, file ∈ contents p manifest := fun _ => List.mem_append_left _
  obtain ⟨t, htext⟩ := h.read_text
  obtain ⟨ht', hlines⟩ := readText_lines htext (hextracted.there _ (hmem _ h.settings))
  have ht : readText dir (str "kernel.config") = .ok t := ht'
  obtain ⟨record, hrecord, hdisk, hkernel, hfirmware, hlog⟩ := h.record
  obtain ⟨v, hv, hsame⟩ := hsame a.record record hrecord
  obtain ⟨packages, hpackages, htruthy⟩ := hsame.packages
  obtain ⟨memory, hmemory, hitem⟩ := hrows.memory
  have hread : readJson tools dir (str "rootfs-manifest.json") = .ok v :=
    hextracted.readJson_iff.mpr ⟨a.record, hmem _ h.provenance, hv⟩
  have hroot : readBytes dir (str "rootfs.ext4") = .ok a.disk :=
    hextracted.readBytes (hmem _ h.disk)
  have hfresh : dir.lookup auditedName = none := by
    apply hextracted.nothing (text "audited-busybox")
    intro hname
    exact absurd ((h.names manifest).subset hname) (by decide)
  have hlisted : ∀ {name file}, (name, file) ∈ p.files → ∀ files, doc.item (str "files") = .ok files →
      files.item (toStr name) = .ok (.string (sha.hash file)) := by
    intro name file hfile files hfiles
    obtain ⟨files', hfiles', hlisted⟩ := listed_item (h.separate manifest) h.hashes hdoc hfile
    cases hfiles.symm.trans hfiles'
    exact hlisted
  obtain ⟨files, hfiles, -⟩ := listed_item (h.separate manifest) h.hashes hdoc h.disk
  have hdisk' : files.item (str "rootfs.ext4") = _ := hlisted h.disk files hfiles
  have hkernel' : files.item (str "Image") = _ := hlisted h.kernel files hfiles
  have hfirmware' : files.item (str "fw_dynamic.bin") = _ := hlisted h.firmware files hfiles
  have hlog' : files.item (str "rootfs-build.log") = _ := hlisted h.log files hfiles
  have hbits := hrows.bits
  have habi := hrows.abi
  rw [h.bits] at hbits
  rw [h.abi] at habi
  simp only [auditDistro, ht, hlines, hbits, habi, hitem, hread, hfiles, hdisk', hkernel', hfirmware',
    hlog', hsame.rootfs, hsame.kernel, hsame.firmware, hsame.log, hsame.builder, hpackages,
    bind_eq_ok, Except.ok.injEq, exists_eq_left', forM_eq_ok, requireLine, require_eq_ok, contains_iff,
    exists_const, List.forall_mem_cons, List.not_mem_nil, false_imp_iff, implies_true, and_true]
  have hset : ∀ line ∈ distroConfig, line ∈ readLines a.kernel.config := h.config
  simp only [distroConfig, List.forall_mem_cons, List.not_mem_nil, false_imp_iff, implies_true,
    and_true] at hset
  obtain ⟨hfpu, hisa, hmmu, hhz, hext4, hblk, hnet, hdev, hinitramfs⟩ := hset
  constructor
  · rintro ⟨audited, ⟨-, htimer, -⟩, -, -, hmib, -, hbuilder, hpresent, hbusybox⟩
    rw [isInt_ofValue hmemory] at hmib
    exact ⟨htimer, hmib, ⟨record, hrecord, toStr_injective (Json.string.inj (isStr_iff.mp hbuilder)),
      htruthy.mp hpresent⟩, (auditBusybox_iff hroot hfresh).mp ⟨audited, hbusybox⟩⟩
  · rintro ⟨htimer, hmib, ⟨record', hrecord', hbuilder, hpresent⟩, hbusybox⟩
    cases hrecord.symm.trans hrecord'
    obtain ⟨audited, haudited⟩ := (auditBusybox_iff hroot hfresh).mpr hbusybox
    rw [← isInt_ofValue hmemory] at hmib
    have hequal : ∀ {x y : Hash}, x = y → sameEntry (Json.string x) (.string y) = true := by
      rintro x _ rfl
      exact isStr_iff.mpr rfl
    exact ⟨audited, ⟨hhz, htimer, hmmu, hfpu, hisa, hext4, hblk, hnet, hdev, hinitramfs⟩, by decide,
      by decide, hmib, ⟨hequal hdisk, hequal hkernel, hequal hfirmware, hequal hlog⟩,
      isStr_iff.mpr (by rw [hbuilder]; rfl), htruthy.mpr hpresent, haudited⟩

theorem DiskStaged.auditFiles (h : DiskStaged readers sha a p) (hdoc : document p.manifest = some doc)
    (r : UserElf.Record ⊕ Bytes × Text × Nat) :
    Audit.auditFiles tools dir doc = .ok r ↔ checkSource tools dir doc = .ok () ∧
      ∃ record, auditDistro tools dir doc = .ok record ∧ r = .inl record := by
  have hvariant := (rows_of_document hdoc).variant
  have hdistro := h.variant
  have hisDistro : ((Json.string (toStr p.manifest.variant.name)).isStr (str "alpine") ||
      (Json.string (toStr p.manifest.variant.name)).isStr (str "debian")) = true := by
    cases hv : p.manifest.variant with
    | alpine | debian => decide
    | tinyShell | buildroot =>
      rw [hv] at hdistro
      cases hdistro
  simp only [Audit.auditFiles, hvariant, hisDistro, if_true, bind_eq_ok, Except.ok.injEq,
    exists_eq_left', pure, Except.pure]
  constructor
  · rintro ⟨_, hsource, record, hrecord, rfl⟩
    exact ⟨hsource, record, hrecord, rfl⟩
  · rintro ⟨hsource, record, hrecord, rfl⟩
    exact ⟨(), hsource, record, hrecord, rfl⟩

/-- The same of a distribution: of the disk, the kernel, the firmware and the log
nothing is left to compare. -/
theorem packaged_distro_audited_iff (h : distro readers sha w a = .ok p)
    (hwritten : Written tools sha p manifest doc)
    (hsame : ∀ file record, readers.diskRecord file = some record →
      ∃ v, jsonOf tools file = some v ∧ SameDisk v record) (fuel : Nat) :
    (∃ r, (extractAndAudit tools fuel (toStr (archiveName p.name)) (archived p manifest)).2 =
      some (.ok r)) ↔ DiskLeft tools readers a p.manifest := by
  have hstaged := diskStaged h
  have hrows := rows_of_document hwritten.dumped
  obtain ⟨dir, hextracted, haudit⟩ :=
    extractAndAudit_archived fuel hwritten (hstaged.separate manifest) hstaged.hashes
  have hsource := @checkSource_iff_left tools doc dir a.kernel _ _ hrows hextracted fun file =>
    (mem_contents (by decide)).trans (hstaged.source file)
  have hdistro := hstaged.auditDistro_iff hextracted hwritten.dumped hsame
  rw [haudit, audit_accepts_iff]
  simp only [hstaged.auditFiles hwritten.dumped, Sum.inl.injEq, reduceCtorEq, and_false, false_and,
    exists_false, or_false, hsource]
  constructor
  · rintro ⟨record, hleft, _, hrecord, rfl⟩
    obtain ⟨htimer, hmemory, hprovisioned, hbusybox⟩ := hdistro.mp ⟨record, hrecord⟩
    exact ⟨hleft, htimer, hmemory, hprovisioned, hbusybox⟩
  · intro hleft
    obtain ⟨record, hrecord⟩ :=
      hdistro.mpr ⟨hleft.timer, hleft.memory, hleft.provisioned, hleft.busybox⟩
    exact ⟨record, hleft.source, record, hrecord, rfl⟩

end

/-! ### An Alpine package -/

def alpinePreset : Value :=
  .table [(text "target", .table [(text "arch", .string (text "riscv64"))]),
    (text "kernel", .table [(text "version", .string (text "6.18.51"))]),
    (text "rootfs", .table [(text "type", .string (text "alpine"))]),
    (text "boot", .table [(text "memory", .integer 1024)])]

def alpineDisk : Disk where
  preset := Release.presetPath
  disk := ascii "disk"
  record := ascii "record"
  buildLog := ascii "log"
  kernel :=
    { timedKernel with
      config := (distroConfig ++ [text "CONFIG_HZ_100=y"]).flatMap fun line =>
        line.map Char.toUInt8 ++ [lf] }
  firmware := ⟨[], [], ascii "firmware"⟩

def alpineRecord : Distro.Record where
  schema := 2
  preset := text "qemu-rv32"
  inputsSha256 := []
  baseImage := ⟨[], [], [], []⟩
  bootstrapImage := ⟨[], [], [], []⟩
  rootfs := .table []
  platform := text "linux/riscv64"
  rootfsSha256 := Release.plainSha.hash (ascii "disk")
  packages := [text "busybox-1.37.0-r30"]
  builder := text "qemu-system-riscv64"
  buildLogSha256 := Release.plainSha.hash (ascii "log")
  kernelSha256 := Release.plainSha.hash Publish.tinyImage
  firmwareSha256 := Release.plainSha.hash (ascii "firmware")

def alpineReaders : Readers :=
  { Publish.tinyReaders with
    toml := fun _ => some alpinePreset
    diskRecord := fun file => if file = ascii "record" then some alpineRecord else none }

def alpineJson : Json :=
  .object [(str "rootfs_sha256", .string alpineRecord.rootfsSha256),
    (str "kernel_sha256", .string alpineRecord.kernelSha256),
    (str "firmware_sha256", .string alpineRecord.firmwareSha256),
    (str "build_log_sha256", .string alpineRecord.buildLogSha256),
    (str "builder", .string (toStr alpineRecord.builder)),
    (str "packages", .array (alpineRecord.packages.map fun name => .string (toStr name)))]

/-- The header of an RV64/lp64d executable, as far as it is looked at. -/
def busyboxElf : Bytes :=
  UserElf.elfMagic ++ [2] ++ List.replicate 13 0 ++ [243, 0] ++ List.replicate 28 0 ++ [4, 0, 0, 0]

def alpineTools (doc : Json) : Tools where
  sha256 := Release.plainSha.hash
  creatable _ := true
  loads t :=
    if t = text "source" then some (sourceOf (text "6.18.51"))
    else if t = text "record" then some alpineJson else some doc
  gunzip := some
  dump _ path := if path = text "/usr/bin/busybox" then some (some busyboxElf) else some none

def alpineTree : Tree :=
  (script "build-distro.py", .file []) :: (script "package-distro.py", .file []) :: Release.builtTree

theorem alpineRecord_same {doc : Json} (file : Bytes) (record : Distro.Record)
    (h : alpineReaders.diskRecord file = some record) :
    ∃ v, jsonOf (alpineTools doc) file = some v ∧ SameDisk v record := by
  simp only [alpineReaders] at h
  split at h
  · rename_i hfile
    cases h
    rw [hfile]
    exact ⟨alpineJson, rfl, rfl, rfl, rfl, rfl, rfl, _, rfl, by decide⟩
  · cases h

theorem packaged_distro_audited_alpine : ∃ p doc r,
    distro alpineReaders Release.plainSha ⟨alpineTree, [], [], 0⟩ alpineDisk = .ok p ∧
      (extractAndAudit (alpineTools doc) 0 (toStr (archiveName p.name))
        (archived p (ascii "manifest"))).2 = some (.ok r) := by
  obtain ⟨p, hp⟩ : ∃ p, distro alpineReaders Release.plainSha ⟨alpineTree, [], [], 0⟩ alpineDisk =
      .ok p := isOk_iff.mp (by decide +kernel)
  have hname : isChild (toStr p.name) = true := by
    have hnamed : (distro alpineReaders Release.plainSha ⟨alpineTree, [], [], 0⟩
        alpineDisk).toOption.any (fun p => isChild (toStr p.name)) = true := by decide +kernel
    rw [hp] at hnamed
    exact hnamed
  have hreads := @distro_reads _ _ ⟨alpineTree, [], [], 0⟩ _ _ alpinePreset rfl hp
  have hversion : p.manifest.kernelVersion = .string (text "6.18.51") :=
    (Option.some.inj hreads.version).symm
  have hmemory : p.manifest.memoryMib = .integer 1024 := by
    have hread := hreads.memory
    have hdistro := (diskStaged hp).variant
    cases hv : p.manifest.variant with
    | alpine | debian =>
      rw [hv] at hread
      exact (Option.some.inj hread).symm
    | tinyShell | buildroot =>
      rw [hv] at hdistro
      cases hdistro
  obtain ⟨doc, hdoc⟩ : ∃ doc, document p.manifest = some doc := by
    rw [document, hversion, hmemory]
    exact ⟨_, rfl⟩
  have hwritten : Written (alpineTools doc) Release.plainSha p (ascii "manifest") doc := by
    constructor
    · rfl
    · exact isChild_of hname
    · exact fun _ _ => rfl
    · exact hdoc
    · rfl
  have hleft : DiskLeft (alpineTools doc) alpineReaders alpineDisk p.manifest := by
    constructor
    · exact ⟨ascii "source", _, _, rfl, rfl, hversion, sourceOf_vouches _⟩
    · decide +kernel
    · rw [hmemory]
      rfl
    · exact ⟨alpineRecord, rfl, rfl, List.cons_ne_nil _ _⟩
    · exact .next rfl (.here rfl rfl)
  obtain ⟨r, hr⟩ := (packaged_distro_audited_iff hp hwritten
    alpineRecord_same 0).mpr hleft
  exact ⟨p, doc, r, hp, hr⟩

end LinuxBuild.PackagedAudit
