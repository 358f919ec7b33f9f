import Mathlib.Tactic.Linarith
import LinuxBuild.PackagedArchive

/-!
# The audit of what a packager made

The packagers check a package before they write it, and `extract_and_audit`
checks it again from the archive. What the first checks, the second finds; what
is left is the second's alone.
-/

namespace LinuxBuild.PackagedAudit

open Extract Python Packages Audit PackagedArchive Repository
open Publish (archiveName)
open Toml (Value)

/-! ## One text for both readers -/

/-- A file the packager has read has the same lines for the audit. -/
theorem readText_lines {dir : Dir} {name : Str} {file : Bytes} {t : Text}
    (ht : readText? file = some t) (h : dir.lookup name = some (.file file)) :
    readText dir name = .ok t ∧ splitlines t = readLines file := by
  refine ⟨?_, (readLines_eq ht).symm⟩
  obtain ⟨t, hdecoded, rfl⟩ := Option.map_eq_some_iff.mp ht
  simp [readText, readBytes, h, bind_eq_ok, hdecoded]

/-! ## Settings are lines -/

theorem partition_line {line key value : Text} (hline : '=' ∈ line)
    (h : partition '=' line = (key, value)) : line = key ++ '=' :: value := by
  obtain ⟨rfl, rfl⟩ := Prod.mk.inj h
  obtain ⟨front, back, rfl, hfront⟩ := List.eq_append_cons_of_mem hline
  have hother : ∀ c ∈ front, decide (c ≠ '=') = true := by
    intro c hc
    rw [decide_eq_true_eq]
    rintro rfl
    exact hfront hc
  rw [List.takeWhile_append_of_pos hother, List.dropWhile_append_of_pos hother]
  simp

theorem line_of_setting {config key value : Text}
    (h : dictGet (configValues config) key = some value) :
    key ++ '=' :: value ∈ splitlines config := by
  have hmem := mem_of_dictGet h
  rw [configValues, List.mem_filterMap] at hmem
  obtain ⟨line, hline, heq⟩ := hmem
  split at heq
  · rename_i hcond
    rw [Bool.and_eq_true, List.contains_iff_mem] at hcond
    rw [← partition_line hcond.2 (Option.some.inj heq)]
    exact hline
  · cases heq

/-! ## Where the kernel is -/

theorem find_eq (payload image : Bytes) :
    Audit.find payload image = match Packages.find image payload with
      | some i => (i : Int)
      | none => -1 := by
  have hfind : (List.range (payload.length + 1)).find? (fun i => image.isPrefixOf (payload.drop i)) =
      Packages.find image payload := by
    induction payload with
    | nil =>
      cases image <;> simp [Packages.find, List.range_succ]
    | cons b payload ih =>
      rw [List.length_cons, List.range_succ_eq_map, List.find?_cons]
      simp only [List.drop_zero, Packages.find]
      by_cases hstarts : image.isPrefixOf (b :: payload) = true
      · simp [hstarts]
      · simp only [hstarts, List.find?_map, Function.comp_def, List.drop_succ_cons]
        rw [ih]
        simp
  cases hplace : Packages.find image payload with
  | none =>
    rw [hplace] at hfind
    simp only [Audit.find, hfind]
  | some i =>
    rw [hplace] at hfind
    simp only [Audit.find, hfind]

theorem unpack64_eq {body : Bytes} {offset : Nat} (h : offset + 8 ≤ body.length) :
    unpack64 body offset = some (OpenSbi.unpackU64 (body.drop offset)) := by
  have hget : ∀ k, body[offset + k]? = (body.drop offset)[k]? := fun k => by rw [List.getElem?_drop]
  have hlength : 8 ≤ (body.drop offset).length := by
    rw [List.length_drop]
    omega
  generalize body.drop offset = l at hget hlength
  match l, hlength with
  | b0 :: b1 :: b2 :: b3 :: b4 :: b5 :: b6 :: b7 :: rest, _ =>
    have h0 : body[offset]? = some b0 := hget 0
    simp only [unpack64, unpack32, unpack16, Nat.add_assoc, h0, hget, Nat.reduceAdd]
    simp [OpenSbi.unpackU64]
    omega

/-! ## What `package-artifacts.py` has checked -/

/-- The files an image package can have. -/
def imageNames : List Text :=
  [text "fw_payload.bin", text "fw_payload.elf", text "fw_dynamic.bin", text "Image", text "vmlinux",
   text "kernel.config", text "initramfs.cpio.gz", text "preset.toml", text "kernel-source.json",
   text "rootfs-manifest.json", text "README.md", text "manifest.json"]

/-- A staged image package, with the checks it has passed. -/
structure ImageStaged (readers : Readers) (sha : Digest Bytes) (w : Surroundings) (a : Artifacts)
    (p : Staged) : Prop where
  name : p.name = a.name
  variant : p.manifest.variant = a.variant
  image : a.variant.isDistro = false
  config : ∃ preset hz, checkConfig preset a = .ok hz
  rootfs : Packages.checkRootfs readers sha w a p.manifest.bits = .ok ()
  payload_at : checkPayload a = .ok ()
  layout : ∃ l, p.manifest.layout = some l ∧ checkLayout a p.manifest.memoryMib = .ok l
  hashes : p.manifest.files = fileHashes sha p.files
  names : ∀ manifest, ((contents p manifest).map (·.1)).Sublist imageNames
  settings : (text "kernel.config", a.kernel.config) ∈ p.files
  kernel : (text "Image", a.kernel.image) ∈ p.files
  payload : (text "fw_payload.bin", a.firmware.payloadBin) ∈ p.files
  initramfs : (text "initramfs.cpio.gz", a.initramfs) ∈ p.files
  source : ∀ file, (text "kernel-source.json", file) ∈ p.files ↔ a.kernel.sourceRecord = some file
  record : a.variant = .buildroot → ∀ file,
    w.tree.file? (rootfsManifest p.manifest.bits) = some file →
      (text "rootfs-manifest.json", file) ∈ p.files

theorem toList_names {α : Type} (o : Option α) (name : Text) (f : α → Bytes) :
    ((o.map fun file => (name, f file)).toList.map (·.1)).Sublist [name] := by
  cases o with
  | none => exact List.nil_sublist _
  | some file => exact List.Sublist.refl _

section

variable {readers : Readers} {sha : Digest Bytes} {w : Surroundings} {a : Artifacts} {p : Staged}

theorem imageStaged (h : artifacts readers sha w a = .ok p) : ImageStaged readers sha w a p := by
  obtain ⟨_, himage, h⟩ := bind_ok h
  obtain ⟨_, _, h⟩ := bind_ok h
  obtain ⟨content, _, h⟩ := bind_ok h
  obtain ⟨preset, _, h⟩ := bind_ok h
  obtain ⟨bits, _, h⟩ := bind_ok h
  obtain ⟨hz, hconfig, h⟩ := bind_ok h
  obtain ⟨_, hrootfs, h⟩ := bind_ok h
  obtain ⟨_, hpayload, h⟩ := bind_ok h
  obtain ⟨ram, _, h⟩ := bind_ok h
  obtain ⟨layout, hlayout, h⟩ := bind_ok h
  obtain ⟨inputs, _, h⟩ := bind_ok h
  obtain ⟨kernel, _, h⟩ := bind_ok h
  obtain ⟨version, _, h⟩ := bind_ok h
  obtain ⟨_, _, h⟩ := bind_ok h
  cases h
  constructor
  · rfl
  · rfl
  · simpa using require_ok himage
  · exact ⟨preset, hz, hconfig⟩
  · exact hrootfs
  · exact hpayload
  · exact ⟨layout, rfl, hlayout⟩
  · rfl
  · intro manifest
    simp only [contents, staged, List.map_append]
    have hrecord : ((if a.variant = .buildroot then
        ((w.tree.file? (rootfsManifest bits)).map fun file =>
          (text "rootfs-manifest.json", file)).toList else []).map (·.1)).Sublist
          [text "rootfs-manifest.json"] := by
      split
      · exact toList_names _ _ id
      · exact List.nil_sublist _
    exact (((List.Sublist.refl _).append (toList_names _ _ id)).append hrecord).append
      (List.Sublist.refl _) |>.append (List.Sublist.refl _)
  · simp [staged]
  · simp [staged]
  · simp [staged]
  · simp [staged]
  · intro file
    simp [staged, text]
  · intro hbuildroot file hfile
    have hthere : w.tree.file? (rootfsManifest bits) = some file := hfile
    simp [staged, hbuildroot, hthere]

theorem ImageStaged.read_text (h : ImageStaged readers sha w a p) :
    ∃ t, readText? a.kernel.config = some t := by
  obtain ⟨preset, hz, hconfig⟩ := h.config
  obtain ⟨t, ht, _⟩ := bind_ok hconfig
  exact ⟨t, orRaise_ok ht⟩

theorem ImageStaged.lines (h : ImageStaged readers sha w a p) :
    (∀ line ∈ [text "CONFIG_MMU=y", text "CONFIG_SERIAL_LITEUART=y",
      text "CONFIG_SERIAL_LITEUART_CONSOLE=y"], line ∈ readLines a.kernel.config) ∧
    (a.variant = .buildroot → text "CONFIG_FPU=y" ∈ readLines a.kernel.config ∧
      text "CONFIG_FUTEX=y" ∈ readLines a.kernel.config) := by
  obtain ⟨preset, hz, hconfig⟩ := h.config
  obtain ⟨t, ht, hconfig⟩ := bind_ok hconfig
  rw [readLines_eq (orRaise_ok ht)]
  obtain ⟨_, _, hconfig⟩ := bind_ok hconfig
  obtain ⟨_, _, hconfig⟩ := bind_ok hconfig
  obtain ⟨_, _, hconfig⟩ := bind_ok hconfig
  obtain ⟨_, _, hconfig⟩ := bind_ok hconfig
  obtain ⟨_, hfpu, hconfig⟩ := bind_ok hconfig
  obtain ⟨_, hsymbols, hconfig⟩ := bind_ok hconfig
  obtain ⟨_, hfutex, _⟩ := bind_ok hconfig
  constructor
  · have hset : ∀ symbol ∈ [text "CONFIG_SERIAL_LITEUART", text "CONFIG_SERIAL_LITEUART_CONSOLE",
        text "CONFIG_MMU"], symbol ++ '=' :: text "y" ∈ splitlines t := by
      intro symbol hsymbol
      exact line_of_setting (eq_of_beq (require_ok (forM_eq_ok.mp hsymbols symbol hsymbol)))
    simp only [List.forall_mem_cons] at hset ⊢
    exact ⟨hset.2.2.1, hset.1, hset.2.1, fun _ h => absurd h List.not_mem_nil⟩
  · intro hbuildroot
    have hfpu' := require_ok hfpu
    have hfutex' := require_ok hfutex
    rw [hbuildroot] at hfpu' hfutex'
    have hset : ∀ symbol, dictGet (configValues t) symbol = some (text "y") →
        symbol ++ '=' :: text "y" ∈ splitlines t := fun symbol h => line_of_setting h
    exact ⟨hset (text "CONFIG_FPU") (by simpa using hfpu'),
      hset (text "CONFIG_FUTEX") (by simpa using hfutex')⟩

/-- The layout that is recorded is that of the files. -/
structure Fits (a : Artifacts) (ram : Value) (l : Layout) : Prop where
  header : 24 ≤ a.kernel.image.length
  offset : Packages.find a.kernel.image a.firmware.payloadBin = some l.payloadKernelOffset
  atStart : l.payloadKernelOffset = OpenSbi.textOffset a.kernel.image
  fdt : l.fdtOffset = a.fdtOffset
  top : (l.payloadKernelOffset : Int) + max (OpenSbi.memorySize a.kernel.image) a.kernel.image.length ≤
    a.fdtOffset
  inside : exceeds (a.fdtOffset + 65536) ram = some false

theorem fits_of_checkLayout {ram : Value} {l : Layout} (hpayload : checkPayload a = .ok ())
    (h : checkLayout a ram = .ok l) : Fits a ram l := by
  obtain ⟨_, hheader, hfind⟩ := bind_ok hpayload
  obtain ⟨_, htop, h⟩ := bind_ok h
  obtain ⟨outside, hexceeds, h⟩ := bind_ok h
  obtain ⟨_, hinside, h⟩ := bind_ok h
  cases h
  have hfalse : outside = false := by simpa using require_ok hinside
  constructor
  · simpa using require_ok hheader
  · simpa using require_ok hfind
  · rfl
  · rfl
  · simpa using require_ok htop
  · rw [← hfalse]
    exact orRaise_ok hexceeds

/-- RAM is a number for the audit where it was one for the packager. -/
theorem real_of_exceeds {need : Int} {ram : Value} {outside : Bool}
    (h : exceeds (need + 65536) ram = some outside) :
    ∃ memory x, ofValue ram = some memory ∧ memory.real = .ok x ∧
      greater (scale 1 65536 (.finite need)) (scale 1048576 0 x) = outside := by
  cases ram with
  | integer n =>
    cases h
    refine ⟨_, _, rfl, rfl, ?_⟩
    simp only [scale, greater, decide_eq_decide, gt_iff_lt]
    norm_cast
    omega
  | boolean b =>
    cases h
    refine ⟨_, _, rfl, rfl, ?_⟩
    simp only [scale, greater, decide_eq_decide, gt_iff_lt]
    cases b <;> norm_num <;> norm_cast
  | float x =>
    cases x with
    | finite q =>
      cases h
      refine ⟨_, _, rfl, rfl, ?_⟩
      simp only [scale, greater, decide_eq_decide, gt_iff_lt]
      push_cast
      constructor <;> intro h <;> linarith
    | infinite negative =>
      cases h
      exact ⟨_, _, rfl, rfl, rfl⟩
    | nan =>
      cases h
      exact ⟨_, _, rfl, rfl, rfl⟩
  | string | moment | array | table => cases h

end

/-! ## The checks of the audit -/

section

variable {tools : Tools} {dir : Dir} {doc : Json}

/-- The rows of a manifest that the audit reads. -/
structure Rows (m : Manifest) (doc : Json) : Prop where
  variant : doc.item (str "variant") = .ok (.string (toStr m.variant.name))
  bits : doc.item (str "bits") = .ok (integer m.bits)
  abi : doc.item (str "abi") = .ok (.string (toStr m.abi))
  version : ∃ v, ofValue m.kernelVersion = some v ∧ doc.item (str "kernel_version") = .ok v
  memory : ∃ v, ofValue m.memoryMib = some v ∧ doc.item (str "memory_mib") = .ok v
  layout : ∀ l, m.layout = some l →
    doc.item (str "payload_kernel_offset") = .ok (integer l.payloadKernelOffset) ∧
    doc.item (str "fdt_offset") = .ok (integer l.fdtOffset)

theorem rows_of_document {m : Manifest} (h : document m = some doc) : Rows m doc := by
  rw [document] at h
  obtain ⟨version, hversion, h⟩ := Option.bind_eq_some_iff.mp h
  obtain ⟨memory, hmemory, h⟩ := Option.bind_eq_some_iff.mp h
  cases h
  cases hlayout : m.layout with
  | none => exact ⟨rfl, rfl, rfl, ⟨_, hversion, rfl⟩, ⟨_, hmemory, rfl⟩, fun l hl => by simp [hlayout] at hl⟩
  | some l =>
    refine ⟨rfl, rfl, rfl, ⟨_, hversion, rfl⟩, ⟨_, hmemory, rfl⟩, fun l' hl => ?_⟩
    cases hlayout.symm.trans hl
    exact ⟨rfl, rfl⟩

def kernelUrl (version : Str) : Str :=
  str "https://cdn.kernel.org/pub/linux/kernel/v" ++ version.takeWhile (· ≠ 0x2e) ++
    str ".x/linux-" ++ version ++ str ".tar.xz"

/-- A record of the sources of a kernel version. -/
structure Vouches (version : Str) (source : Json) : Prop where
  named : source.item (str "version") = .ok (.string version)
  url : source.item (str "archive_url") = .ok (.string (kernelUrl version))
  digest : ∃ sha, source.item (str "sha256") = .ok (.string sha) ∧ isSha256 sha = true

theorem checkSource_eq_ok {version : Json} (hversion : doc.item (str "kernel_version") = .ok version) :
    checkSource tools dir doc = .ok () ↔
      ∃ source v, readJson tools dir (str "kernel-source.json") = .ok source ∧ version = .string v ∧
        Vouches v source := by
  simp only [checkSource, bind_eq_ok, hversion, Except.ok.injEq, exists_eq_left']
  constructor
  · rintro ⟨source, hsource, h⟩
    cases version with
    | string v =>
      simp only [bind_eq_ok, require_eq_ok, isStr_iff] at h
      obtain ⟨_, hitem, _, rfl, _, hurl, _, rfl, sha, hsha, h⟩ := h
      cases sha with
      | string s => exact ⟨source, v, hsource, rfl, hitem, hurl, s, hsha, by simpa using h⟩
      | null | bool | number | array | object => cases h
    | null | bool | number | array | object => cases h
  · rintro ⟨source, v, hsource, rfl, h⟩
    obtain ⟨sha, hsha, hdigest⟩ := h.digest
    refine ⟨source, hsource, ?_⟩
    simp only [h.named, h.url, hsha, bind_eq_ok, Except.ok.injEq, exists_eq_left', require_eq_ok,
      isStr_iff, kernelUrl, hdigest, exists_const, and_self]

theorem contains_iff {lines : List Text} {line : Text} :
    lines.contains line = true ↔ line ∈ lines := List.contains_iff_mem

theorem checkConfig_eq_ok {t : Text} {buildroot : Bool}
    (ht : readText dir (str "kernel.config") = .ok t) :
    Audit.checkConfig dir buildroot = .ok () ↔
      (∀ line ∈ ["CONFIG_HZ=100", "CONFIG_HZ_100=y", "CONFIG_MMU=y", "CONFIG_SERIAL_LITEUART=y",
        "CONFIG_SERIAL_LITEUART_CONSOLE=y"], text line ∈ splitlines t) ∧
      (text "CONFIG_FPU=y" ∈ splitlines t ↔ buildroot = true) ∧
      (buildroot = true → text "CONFIG_FUTEX=y" ∈ splitlines t) := by
  simp only [Audit.checkConfig, ht, bind_eq_ok, Except.ok.injEq, exists_eq_left', forM_eq_ok,
    requireLine, require_eq_ok, contains_iff, exists_const]
  apply and_congr Iff.rfl
  apply and_congr <;> cases buildroot <;> simp

/-- The embedded kernel is where the manifest says, and fits. -/
theorem checkMemory_ok {m : Manifest} {a : Artifacts} {l : Layout} (hrows : Rows m doc)
    (hlayout : m.layout = some l) (hfits : Fits a m.memoryMib l)
    (himage : readBytes dir (str "Image") = .ok a.kernel.image)
    (hpayload : readBytes dir (str "fw_payload.bin") = .ok a.firmware.payloadBin) :
    checkMemory dir doc = .ok () := by
  obtain ⟨hoffset, hfdt⟩ := hrows.layout l hlayout
  obtain ⟨memory, hmemory, hitem⟩ := hrows.memory
  obtain ⟨memory', x, hmemory', hreal, hinside⟩ := real_of_exceeds hfits.inside
  cases hmemory.symm.trans hmemory'
  have hheader := hfits.header
  have hstart := @unpack64_eq a.kernel.image 8 (by omega)
  have hsize := @unpack64_eq a.kernel.image 16 (by omega)
  have hfind : Audit.find a.firmware.payloadBin a.kernel.image = (l.payloadKernelOffset : Int) := by
    rw [find_eq, hfits.offset]
  have hfdtReal : (integer l.fdtOffset).real = .ok (.finite l.fdtOffset) := rfl
  have htop := hfits.top
  have hrow := hfits.fdt
  have hstart' := hfits.atStart
  simp only [checkMemory, himage, hpayload, hoffset, hfdt, hitem, hreal, hfdtReal, hstart, hsize,
    bind_eq_ok, Except.ok.injEq, exists_eq_left', require_eq_ok, orRaise_eq_ok, Option.some.injEq,
    exists_const]
  refine ⟨?_, ?_, ?_⟩
  · simp [integer, Json.isInt, hfind]
  · have hle : (OpenSbi.unpackU64 (a.kernel.image.drop 8) +
        max (OpenSbi.unpackU64 (a.kernel.image.drop 16)) a.kernel.image.length : Nat) ≤ l.fdtOffset := by
      rw [hrow, Nat.cast_add]
      rw [hstart'] at htop
      exact htop
    simp only [greater, Bool.not_eq_true', decide_eq_false_iff_not, not_lt]
    exact_mod_cast hle
  · rw [hrow, hinside]
    rfl

end

/-! ## Image packages -/

/-- `json.loads` of the record of a root file system, against what the packager
reads of it. -/
structure SameRootfs (v : Json) (record : RootfsRecord) : Prop where
  schema : ∃ identity schema, v.item (str "identity") = .ok identity ∧
    identity.get (str "schema") = .ok schema ∧
    (schema.any (·.isInt 2) = true ↔ record.schema = some 2)
  features : ∃ features, v.get (str "busybox_required_features") = .ok features ∧
    (features.any Json.truthy = true ↔ record.busyboxRequiredFeatures ≠ [])
  digest : v.item (str "rootfs_sha256") = .ok (.string record.rootfsSha256)

/-- No packager looks at the record of the kernel's sources. -/
def SourceLeft (tools : Tools) (kernel : KernelDir) (m : Manifest) : Prop :=
  ∃ file source version, kernel.sourceRecord = some file ∧ jsonOf tools file = some source ∧
    m.kernelVersion = .string version ∧ Vouches (toStr version) source

/-- What the audit of an image package asks beyond the packager's checks. -/
structure ImageLeft (tools : Tools) (fuel : Nat) (a : Artifacts) (m : Manifest) : Prop where
  source : SourceLeft tools a.kernel m
  timer : text "CONFIG_HZ=100" ∈ readLines a.kernel.config ∧
    text "CONFIG_HZ_100=y" ∈ readLines a.kernel.config
  noFpu : a.variant = .tinyShell → text "CONFIG_FPU=y" ∉ readLines a.kernel.config
  programs : ∃ data scans record, tools.gunzip a.initramfs = some data ∧
    UserElf.userElf fuel (if a.variant = .tinyShell then text "tiny_shell" else [])
      (if m.bits = 32 then 32 else 64) data = some (scans, .ok record)

section

variable {tools : Tools} {readers : Readers} {sha : Digest Bytes} {w : Surroundings} {a : Artifacts}
  {p : Staged} {manifest : Bytes} {doc : Json} {dir : Dir}

theorem ImageStaged.separate (h : ImageStaged readers sha w a p) (manifest : Bytes) :
    Separate (contents p manifest) :=
  separate_of_sublist (h.names manifest) (by decide +kernel) (children_of_all (by decide +kernel))

theorem ofValue_string {v : Value} {s : Str} (h : ofValue v = some (.string s)) :
    ∃ t, v = .string t ∧ s = toStr t := by
  cases v with
  | string t =>
    cases h
    exact ⟨t, rfl, rfl⟩
  | array items =>
    obtain ⟨_, _, h⟩ := Option.map_eq_some_iff.mp h
    cases h
  | table rows =>
    obtain ⟨_, _, h⟩ := Option.map_eq_some_iff.mp h
    cases h
  | integer | float | boolean | moment => cases h

theorem checkSource_iff_left {kernel : KernelDir} {m : Manifest} {files : List (Text × Bytes)}
    (hrows : Rows m doc) (hextracted : Extracted dir files)
    (hpacked : ∀ file, (text "kernel-source.json", file) ∈ files ↔ kernel.sourceRecord = some file) :
    checkSource tools dir doc = .ok () ↔ SourceLeft tools kernel m := by
  obtain ⟨version, hversion, hitem⟩ := hrows.version
  rw [checkSource_eq_ok hitem]
  constructor
  · rintro ⟨source, v, hread, rfl, hvouches⟩
    obtain ⟨file, hfile, hjson⟩ := hextracted.readJson_iff.mp hread
    obtain ⟨name, hname, rfl⟩ := ofValue_string hversion
    exact ⟨file, source, name, (hpacked file).mp hfile, hjson, hname, hvouches⟩
  · rintro ⟨file, source, name, hfile, hjson, hname, hvouches⟩
    rw [hname] at hversion
    exact ⟨source, _, hextracted.readJson_iff.mpr ⟨file, (hpacked file).mpr hfile, hjson⟩,
      (Option.some.inj hversion).symm, hvouches⟩

theorem mem_contents {name : Text} {file : Bytes} (hname : name ≠ text "manifest.json") :
    (name, file) ∈ contents p manifest ↔ (name, file) ∈ p.files := by
  rw [contents, List.mem_append]
  apply or_iff_left
  rw [List.mem_singleton]
  intro heq
  exact hname (congrArg Prod.fst heq)

theorem ImageStaged.checkRootfs (h : ImageStaged readers sha w a p) (hbuildroot : a.variant = .buildroot)
    (hextracted : Extracted dir (contents p manifest)) (hdoc : document p.manifest = some doc)
    (hsame : ∀ file record, readers.rootfsRecord file = some record →
      ∃ v, jsonOf tools file = some v ∧ SameRootfs v record) :
    Audit.checkRootfs tools dir doc = .ok () := by
  have hrootfs := h.rootfs
  rw [Packages.checkRootfs, if_pos hbuildroot] at hrootfs
  obtain ⟨record, hrecord, hrootfs⟩ := bind_ok hrootfs
  obtain ⟨_, hpolicy, hrootfs⟩ := bind_ok hrootfs
  have hpolicy' := require_ok hpolicy
  have hdigest := require_ok hrootfs
  obtain ⟨file, hfile, hread⟩ := Option.bind_eq_some_iff.mp (orRaise_ok hrecord)
  obtain ⟨v, hv, hsame⟩ := hsame file record hread
  obtain ⟨identity, schema, hidentity, hschema, hschemaIff⟩ := hsame.schema
  obtain ⟨features, hfeatures, hfeaturesIff⟩ := hsame.features
  have hmem : (text "rootfs-manifest.json", file) ∈ contents p manifest :=
    List.mem_append_left _ (h.record hbuildroot file hfile)
  have hjson : readJson tools dir (str "rootfs-manifest.json") = .ok v :=
    hextracted.readJson_iff.mpr ⟨file, hmem, hv⟩
  obtain ⟨files, hfiles, hlisted⟩ := listed_item (h.separate manifest) h.hashes hdoc h.initramfs
  have hitem : files.item (str "initramfs.cpio.gz") = .ok (.string (sha.hash a.initramfs)) := hlisted
  rw [Bool.and_eq_true, beq_iff_eq, Bool.not_eq_true', List.isEmpty_eq_false_iff] at hpolicy'
  simp only [Audit.checkRootfs, hjson, hidentity, hschema, hfeatures, hsame.digest, hfiles, hitem,
    bind_eq_ok, Except.ok.injEq, exists_eq_left', require_eq_ok, exists_const]
  exact ⟨hschemaIff.mpr hpolicy'.1, hfeaturesIff.mpr hpolicy'.2, by simpa [sameEntry, Json.isStr] using hdigest⟩

theorem outcome_congr {β : Type} {x y : Except Raised Unit} {data : Option Bytes} {f : Bytes → β} {r : β} :
    (∃ u, x = .ok u ∧ ∃ u, y = .ok u ∧ ∃ d, data = some d ∧ f d = r) ↔
      x = .ok () ∧ y = .ok () ∧ ∃ d, data = some d ∧ r = f d := by
  constructor
  · rintro ⟨_, hx, _, hy, d, hd, rfl⟩
    exact ⟨hx, hy, d, hd, rfl⟩
  · rintro ⟨hx, hy, d, hd, rfl⟩
    exact ⟨(), hx, (), hy, d, hd, rfl⟩

/-- The data of the initramfs is what is left to look at. -/
theorem ImageStaged.auditFiles (h : ImageStaged readers sha w a p)
    (hextracted : Extracted dir (contents p manifest)) (hdoc : document p.manifest = some doc)
    (hsame : ∀ file record, readers.rootfsRecord file = some record →
      ∃ v, jsonOf tools file = some v ∧ SameRootfs v record) (r : UserElf.Record ⊕ Bytes × Text × Nat) :
    Audit.auditFiles tools dir doc = .ok r ↔ checkSource tools dir doc = .ok () ∧
      Audit.checkConfig dir (a.variant == .buildroot) = .ok () ∧
      ∃ data, tools.gunzip a.initramfs = some data ∧
        r = .inr (data, if a.variant = .tinyShell then text "tiny_shell" else [],
          if p.manifest.bits = 32 then 32 else 64) := by
  have hrows := rows_of_document hdoc
  obtain ⟨l, hlayout, hfits⟩ := h.layout
  have hmem : ∀ file ∈ p.files, file ∈ contents p manifest := fun _ => List.mem_append_left _
  have himage : readBytes dir (str "Image") = .ok a.kernel.image :=
    hextracted.readBytes (hmem _ h.kernel)
  have hpayload : readBytes dir (str "fw_payload.bin") = .ok a.firmware.payloadBin :=
    hextracted.readBytes (hmem _ h.payload)
  have hinitramfs : readBytes dir (str "initramfs.cpio.gz") = .ok a.initramfs :=
    hextracted.readBytes (hmem _ h.initramfs)
  have hmemory := checkMemory_ok hrows hlayout (fits_of_checkLayout h.payload_at hfits) himage hpayload
  have hbits : (integer p.manifest.bits).isInt 32 = true ↔ p.manifest.bits = 32 := by
    simp only [integer, Json.isInt, decide_eq_true_eq]
    norm_cast
  have hvariant := hrows.variant
  rw [h.variant] at hvariant
  have hpair := h.image
  cases ha : a.variant with
  | tinyShell =>
    rw [ha] at hvariant
    have halpine : (Json.string (toStr Variant.tinyShell.name)).isStr (str "alpine") = false := by
      decide
    have hdebian : (Json.string (toStr Variant.tinyShell.name)).isStr (str "debian") = false := by
      decide
    have hbuildroot : (Json.string (toStr Variant.tinyShell.name)).isStr (str "buildroot") = false := by
      decide
    have htiny : (Json.string (toStr Variant.tinyShell.name)).isStr (str "tiny_shell") = true := by
      decide
    simp only [Audit.auditFiles, hvariant, halpine, hdebian, hbuildroot, htiny, hmemory, hrows.bits,
      hinitramfs, hbits, bind_eq_ok, Except.ok.injEq, exists_eq_left', orRaise_eq_ok, Bool.or_self,
      Bool.false_eq_true, if_false, if_true, exists_const, true_and, pure, Except.pure]
    exact outcome_congr
  | buildroot =>
    have hcheck := h.checkRootfs ha hextracted hdoc hsame
    rw [ha] at hvariant
    have halpine : (Json.string (toStr Variant.buildroot.name)).isStr (str "alpine") = false := by
      decide
    have hdebian : (Json.string (toStr Variant.buildroot.name)).isStr (str "debian") = false := by
      decide
    have hbuildroot : (Json.string (toStr Variant.buildroot.name)).isStr (str "buildroot") = true := by
      decide
    have htiny : (Json.string (toStr Variant.buildroot.name)).isStr (str "tiny_shell") = false := by
      decide
    simp only [Audit.auditFiles, hvariant, halpine, hdebian, hbuildroot, htiny, hmemory, hrows.bits,
      hinitramfs, hbits, hcheck, bind_eq_ok, Except.ok.injEq, exists_eq_left', orRaise_eq_ok,
      Bool.or_self, Bool.false_eq_true, if_false, if_true, exists_const, true_and, pure, Except.pure]
    exact outcome_congr
  | alpine | debian => rw [ha] at hpair; cases hpair

theorem audit_accepts_iff {fuel : Nat} : (∃ r, audit tools fuel dir doc = some (.ok r)) ↔
    (∃ record, Audit.auditFiles tools dir doc = .ok (.inl record)) ∨
      ∃ data variant bits scans record, Audit.auditFiles tools dir doc = .ok (.inr (data, variant, bits)) ∧
        UserElf.userElf fuel variant bits data = some (scans, .ok record) := by
  rw [audit]
  cases hfiles : Audit.auditFiles tools dir doc with
  | error e => simp
  | ok r =>
    cases r with
    | inl record => simp
    | inr rest =>
      obtain ⟨data, variant, bits⟩ := rest
      simp only [Option.map_eq_some_iff, Except.ok.injEq, Sum.inr.injEq, reduceCtorEq, exists_false,
        false_or, Prod.mk.injEq]
      constructor
      · rintro ⟨r, ⟨scans, e⟩, helf, hr⟩
        cases e with
        | error e => cases hr
        | ok record => exact ⟨data, variant, bits, scans, record, ⟨rfl, rfl, rfl⟩, helf⟩
      · rintro ⟨_, _, _, scans, record, ⟨rfl, rfl, rfl⟩, helf⟩
        exact ⟨_, _, helf, rfl⟩

/-- The audit of a package accepts it exactly when what the packager has not
checked holds too: none of the packager's own checks can fail again. -/
theorem packaged_image_audited_iff (h : artifacts readers sha w a = .ok p)
    (hwritten : Written tools sha p manifest doc)
    (hsame : ∀ file record, readers.rootfsRecord file = some record →
      ∃ v, jsonOf tools file = some v ∧ SameRootfs v record) (fuel : Nat) :
    (∃ r, (extractAndAudit tools fuel (toStr (archiveName p.name)) (archived p manifest)).2 =
      some (.ok r)) ↔ ImageLeft tools fuel a p.manifest := by
  have hstaged := imageStaged h
  have hrows := rows_of_document hwritten.dumped
  obtain ⟨dir, hextracted, haudit⟩ :=
    extractAndAudit_archived fuel hwritten (hstaged.separate manifest) hstaged.hashes
  obtain ⟨t, htext⟩ := hstaged.read_text
  obtain ⟨ht, hlines⟩ := readText_lines htext
    (hextracted.there _ (List.mem_append_left _ hstaged.settings))
  have hsource := @checkSource_iff_left tools doc dir a.kernel _ _ hrows hextracted fun file =>
    (mem_contents (by decide)).trans (hstaged.source file)
  obtain ⟨hset, hfloat⟩ := hstaged.lines
  rw [haudit, audit_accepts_iff]
  simp only [hstaged.auditFiles hextracted hwritten.dumped hsame, reduceCtorEq, and_false, exists_false,
    false_or, Sum.inr.injEq, Prod.mk.injEq, hsource, checkConfig_eq_ok ht, hlines]
  constructor
  · rintro ⟨data, _, _, scans, record, ⟨hleft, ⟨hneeded, hfpu, -⟩, _, hdata, rfl, rfl, rfl⟩, helf⟩
    constructor
    · exact hleft
    · exact ⟨hneeded "CONFIG_HZ=100" (by simp), hneeded "CONFIG_HZ_100=y" (by simp)⟩
    · intro htiny hmem
      have hbuildroot := hfpu.mp hmem
      rw [htiny] at hbuildroot
      cases hbuildroot
    · exact ⟨_, scans, record, hdata, helf⟩
  · intro hleft
    obtain ⟨data, scans, record, hdata, helf⟩ := hleft.programs
    have hneeded : ∀ line ∈ ["CONFIG_HZ=100", "CONFIG_HZ_100=y", "CONFIG_MMU=y",
        "CONFIG_SERIAL_LITEUART=y", "CONFIG_SERIAL_LITEUART_CONSOLE=y"],
        text line ∈ readLines a.kernel.config := by
      simp only [List.forall_mem_cons, List.not_mem_nil, false_imp_iff, implies_true, and_true]
        at hset ⊢
      exact ⟨hleft.timer.1, hleft.timer.2, hset⟩
    have hfpu : text "CONFIG_FPU=y" ∈ readLines a.kernel.config ↔
        (a.variant == Variant.buildroot) = true := by
      rw [beq_iff_eq]
      constructor
      · intro hmem
        cases ha : a.variant with
        | buildroot => rfl
        | tinyShell => exact absurd hmem (hleft.noFpu ha)
        | alpine | debian =>
          have himage := hstaged.image
          rw [ha] at himage
          cases himage
      · intro hbuildroot
        exact (hfloat hbuildroot).1
    exact ⟨data, _, _, scans, record, ⟨hleft.source, ⟨hneeded, hfpu, fun hbuildroot =>
      (hfloat (eq_of_beq hbuildroot)).2⟩, data, hdata, rfl, rfl, rfl⟩, helf⟩

end

/-! ### A tiny shell package -/

def timedKernel : KernelDir :=
  { Publish.tinyKernel with
    config := ascii "CONFIG_HZ_100=y\n" ++ Publish.tinyKernel.config
    sourceRecord := some (ascii "source") }

def shellArtifacts : Artifacts where
  name := Publish.tinyName
  kernel := timedKernel
  firmware := ⟨Publish.tinyImage, [], Publish.tinyImage⟩
  initramfs := Cpio.archive [Cpio.initEntry]
  preset := Release.presetPath
  variant := .tinyShell
  isa := text "rv32imac_zicntr_zicsr_zifencei"
  abi := text "ilp32"
  fdtOffset := 0x3f00000

def sourceOf (version : Text) : Json :=
  .object [(str "version", .string (toStr version)),
    (str "archive_url", .string (kernelUrl (toStr version))),
    (str "sha256", .string (List.replicate 64 0x30))]

theorem sourceOf_vouches (version : Text) : Vouches (toStr version) (sourceOf version) :=
  ⟨rfl, rfl, _, rfl, by decide⟩

def shellTools (doc : Json) : Tools where
  sha256 := Release.plainSha.hash
  creatable _ := true
  loads t := if t = text "source" then some (sourceOf (text "6.18.51")) else some doc
  gunzip := some
  dump _ _ := none

theorem packaged_image_audited_shell : ∃ p doc r,
    artifacts Publish.tinyReaders Release.plainSha ⟨Release.builtTree, [], [], 0⟩ shellArtifacts = .ok p ∧
      (extractAndAudit (shellTools doc) 3 (str "linux-riscv-qemu-rv32-v6.18.51.tar.gz")
        (archived p (ascii "manifest"))).2 = some (.ok r) := by
  obtain ⟨p, hp⟩ : ∃ p, artifacts Publish.tinyReaders Release.plainSha ⟨Release.builtTree, [], [], 0⟩
      shellArtifacts = .ok p := isOk_iff.mp (by decide +kernel)
  have hname := (imageStaged hp).name
  have hreads := @artifacts_reads _ _ ⟨Release.builtTree, [], [], 0⟩ _ _ Publish.tinyPreset rfl hp
  have hversion : p.manifest.kernelVersion = .string (text "6.18.51") :=
    (Option.some.inj hreads.version).symm
  have hbits : p.manifest.bits = 32 := by
    have hread := hreads.bits
    rw [show Packages.archBits Publish.tinyPreset = some 32 by decide +kernel] at hread
    exact (Option.some.inj hread).symm
  have hmemory : p.manifest.memoryMib = .integer 1024 := by
    have hread := hreads.memory
    rw [(imageStaged hp).variant] at hread
    exact (Option.some.inj hread).symm
  obtain ⟨doc, hdoc⟩ : ∃ doc, document p.manifest = some doc := by
    rw [document, hversion, hmemory]
    exact ⟨_, rfl⟩
  have hwritten : Written (shellTools doc) Release.plainSha p (ascii "manifest") doc := by
    constructor
    · rfl
    · rw [hname]
      exact isChild_of (by decide)
    · exact fun _ _ => rfl
    · exact hdoc
    · rfl
  have hleft : ImageLeft (shellTools doc) 3 shellArtifacts p.manifest := by
    constructor
    · exact ⟨ascii "source", _, _, rfl, rfl, hversion, sourceOf_vouches _⟩
    · exact ⟨by decide +kernel, by decide +kernel⟩
    · exact fun _ => by decide +kernel
    · rw [hbits]
      have hrun : (UserElf.userElf 3 (text "tiny_shell") 32 (Cpio.archive [Cpio.initEntry])).any
          (fun r => r.2.isOk) = true := by decide +kernel
      obtain ⟨⟨scans, e⟩, helf, hok⟩ := (Option.any_eq_true _ _).mp hrun
      obtain ⟨record, hrecord⟩ := isOk_iff.mp hok
      exact ⟨_, scans, record, rfl, hrecord ▸ helf⟩
  obtain ⟨r, hr⟩ := (packaged_image_audited_iff hp hwritten
    (fun _ _ h => by cases h) 3).mpr hleft
  rw [hname] at hr
  exact ⟨p, doc, r, hp, hr⟩

end LinuxBuild.PackagedAudit
