import LinuxBuild.Audit

/-!
# `fetch_image`

What `skopeo copy` leaves in a directory comes from a registry. Nothing of it is
used before its SHA-256 is the one that the manifest gives.
-/

namespace LinuxBuild.FetchImage

open Extract Python Audit

def colon : Nat := 0x3a

/-- The files of a download; `read name` is what `destination / name` holds,
wherever that leads. -/
structure Download where
  read : Str → Option Bytes

/-- The layer, as its name in the directory, and what is recorded of the image. -/
structure Fetched where
  layer : Str
  reference : Str
  manifestSha256 : Str
  configDigest : Str
  layerDigest : Str
  deriving DecidableEq

def manifestName : Str := str "manifest.json"

section

variable (sha256 : Bytes → Str) (loads : Text → Option Json) (d : Download)

def readFile (name : Str) : Except Raised Bytes :=
  if 0 ∈ name then .error (.value (str "embedded null byte")) else orRaise (d.read name) .os

/-- `json.loads(path.read_text())`. -/
def parse (file : Bytes) : Except Raised Json := do
  let text ← orRaise ((Utf8.decodeStrict file).map universalNewlines) .decode
  orRaise (loads text) .json

/-- What `len` counts and iteration gives. -/
def iterate : Json → Except Raised (List Json)
  | .array items => .ok items
  | .string s => .ok (s.map fun c => .string [c])
  | .object rows => .ok ((dictItems rows).map fun row => .string row.1)
  | _ => .error .type

/-- `desc['digest'].split(':')`. -/
def splitDigest (desc : Json) : Except Raised (Str × List Str) := do
  match ← desc.item (str "digest") with
  | .string s => return (s, s.splitOn colon)
  | _ => .error .attribute

/-- `algorithm, digest = pieces`. -/
def twoOf : List Str → Except Raised (Str × Str)
  | [algorithm, digest] => .ok (algorithm, digest)
  | [_] => .error (.value (str "not enough values to unpack (expected 2, got 1)"))
  | _ => .error (.value (str "too many values to unpack (expected 2)"))

/-- One turn of the loop over the blobs: the digest as it is written and as a name. -/
def checkBlob (desc : Json) : Except Raised (Str × Str) := do
  let (written, pieces) ← splitDigest desc
  let (algorithm, digest) ← twoOf pieces
  require (algorithm = str "sha256") (.value (str "OCI blob integrity failure"))
  let blob ← readFile d digest
  require (sha256 blob = digest) (.value (str "OCI blob integrity failure"))
  return (written, digest)

def fetchImage (reference : Str) : Except Raised Fetched := do
  let file ← readFile d manifestName
  let manifest ← parse loads file
  let layers ← iterate (← manifest.item (str "layers"))
  require (layers.length = 1)
    (.value (str "expected an official single-layer minimal base image"))
  let configDesc ← manifest.item (str "config")
  let (configDigest, configName) ← checkBlob sha256 d configDesc
  let blobs ← layers.mapM (checkBlob sha256 d)
  let config ← parse loads (← readFile d configName)
  let architecture ← config.item (str "architecture")
  let os ← config.item (str "os")
  require (architecture.isStr (str "riscv64") && os.isStr (str "linux"))
    (.value (str "upstream image is not linux/riscv64"))
  match blobs with
  | (layerDigest, layer) :: _ => return ⟨layer, reference, sha256 file, configDigest, layerDigest⟩
  | [] => .error .index

end

/-! ## What is returned -/

/-- A blob that is written in the manifest as `sha256:` and its name, and whose
SHA-256 is that name. -/
structure Blob (sha256 : Bytes → Str) (d : Download) (desc : Json) (written name : Str) (file : Bytes) :
    Prop where
  digest : desc.item (str "digest") = .ok (.string written)
  spelled : written = str "sha256:" ++ name
  there : d.read name = some file
  verified : sha256 file = name

/-- An image for linux/riscv64 with one layer, everything of it verified. -/
structure Verified (sha256 : Bytes → Str) (loads : Text → Option Json) (d : Download) (reference : Str)
    (f : Fetched) (manifestFile layerFile configFile : Bytes) : Prop where
  manifest : ∃ manifest configDesc layerDesc configName config,
    parse loads manifestFile = .ok manifest ∧ manifest.item (str "config") = .ok configDesc ∧
    manifest.item (str "layers") = .ok (.array [layerDesc]) ∧
    Blob sha256 d configDesc f.configDigest configName configFile ∧
    Blob sha256 d layerDesc f.layerDigest f.layer layerFile ∧
    parse loads configFile = .ok config ∧
    config.item (str "architecture") = .ok (.string (str "riscv64")) ∧
    config.item (str "os") = .ok (.string (str "linux"))
  file : d.read manifestName = some manifestFile
  recorded : f.manifestSha256 = sha256 manifestFile ∧ f.reference = reference

section

variable {sha256 : Bytes → Str} {loads : Text → Option Json} {d : Download}

/-- Digits and letters from `a` to `f`. -/
theorem hex_of_isSha256 {s : Str} (h : isSha256 s = true) : ∀ c ∈ s, 0x30 ≤ c ∧ c ≤ 0x66 ∧ c ≠ colon := by
  rw [isSha256, Bool.and_eq_true, List.all_eq_true] at h
  intro c hc
  have hdigit := h.2 c hc
  simp only [Bool.or_eq_true, Bool.and_eq_true, decide_eq_true_eq, colon] at hdigit ⊢
  omega

theorem readFile_eq_ok {name : Str} {file : Bytes} :
    readFile d name = .ok file ↔ 0 ∉ name ∧ d.read name = some file := by
  rw [readFile]
  split
  · rename_i hnul
    simp [hnul]
  · rename_i hnul
    simp [hnul]

theorem splitOn_two {s algorithm digest : Str} (h : s.splitOn colon = [algorithm, digest]) :
    s = algorithm ++ colon :: digest := by
  have hjoin : [colon].intercalate (s.splitOn colon) = s := List.intercalate_splitOn colon
  rw [h] at hjoin
  rw [← hjoin]
  simp [List.intercalate]

theorem twoOf_eq_ok {pieces : List Str} {algorithm digest : Str} :
    twoOf pieces = .ok (algorithm, digest) ↔ pieces = [algorithm, digest] := by
  match pieces with
  | [] | [_] | _ :: _ :: _ :: _ => simp [twoOf]
  | [_, _] => simp [twoOf]

theorem splitOn_sha256 {name : Str} (h : colon ∉ name) :
    (str "sha256:" ++ name).splitOn colon = [str "sha256", name] := by
  have happend : str "sha256:" ++ name = str "sha256" ++ colon :: name := rfl
  rw [happend, List.splitOn_append_cons_self_of_not_mem (by decide), List.splitOn_eq_singleton h]

theorem checkBlob_eq_ok {desc : Json} {written name : Str}
    (hhex : ∀ file, isSha256 (sha256 file) = true) :
    checkBlob sha256 d desc = .ok (written, name) ↔ ∃ file, Blob sha256 d desc written name file := by
  constructor
  · intro h
    obtain ⟨⟨w, pieces⟩, hsplit, h⟩ := bind_ok h
    obtain ⟨⟨algorithm, digest⟩, htwo, h⟩ := bind_ok h
    obtain ⟨_, halgorithm, h⟩ := bind_ok h
    obtain ⟨file, hfile, h⟩ := bind_ok h
    obtain ⟨_, hverified, h⟩ := bind_ok h
    cases h
    obtain ⟨v, hv, hsplit⟩ := bind_ok hsplit
    cases v with
    | string s =>
      cases hsplit
      have hspelled := splitOn_two (twoOf_eq_ok.mp htwo)
      rw [of_decide_eq_true (require_ok halgorithm)] at hspelled
      exact ⟨file, hv, hspelled, (readFile_eq_ok.mp hfile).2, of_decide_eq_true (require_ok hverified)⟩
    | null | bool | number | array | object => cases hsplit
  · rintro ⟨file, h⟩
    have hname : ∀ c ∈ name, 0x30 ≤ c ∧ c ≤ 0x66 ∧ c ≠ colon :=
      hex_of_isSha256 (h.verified ▸ hhex file)
    have hsplit := splitOn_sha256 fun hmem => (hname colon hmem).2.2 rfl
    have hread := readFile_eq_ok.mpr ⟨fun hmem => absurd (hname 0 hmem).1 (by decide), h.there⟩
    rw [← h.spelled] at hsplit
    simp only [checkBlob, splitDigest, h.digest, bind_eq_ok, Except.ok.injEq, exists_eq_left', pure,
      Except.pure, hsplit, twoOf, require_eq_ok, hread, h.verified, decide_true, exists_const, and_self]

theorem iterate_one {v : Json} {items : List Json} (h : iterate v = .ok items) (hone : items.length = 1) :
    (∃ desc, v = .array [desc] ∧ items = [desc]) ∨ ∃ s, items = [.string s] := by
  obtain ⟨desc, rfl⟩ := List.length_eq_one_iff.mp hone
  cases v with
  | array items =>
    cases h
    exact .inl ⟨desc, rfl, rfl⟩
  | string s =>
    obtain ⟨c, _, rfl⟩ := List.map_eq_singleton_iff.mp (Except.ok.inj h)
    exact .inr ⟨[c], rfl⟩
  | object rows =>
    obtain ⟨row, _, rfl⟩ := List.map_eq_singleton_iff.mp (Except.ok.inj h)
    exact .inr ⟨row.1, rfl⟩
  | null | bool | number => cases h

theorem mapM_single {α β : Type} {check : α → Except Raised β} {a : α} {blobs : List β} :
    [a].mapM check = .ok blobs ↔ ∃ b, check a = .ok b ∧ blobs = [b] := by
  rw [List.mapM_cons, List.mapM_nil]
  simp only [bind_eq_ok, pure, Except.pure, Except.ok.injEq, exists_eq_left']
  constructor <;> rintro ⟨b, hb, rfl⟩ <;> exact ⟨b, hb, rfl⟩

theorem verified_of_fetchImage (hhex : ∀ file, isSha256 (sha256 file) = true) {reference : Str}
    {f : Fetched} (h : fetchImage sha256 loads d reference = .ok f) :
    ∃ manifestFile layerFile configFile,
      Verified sha256 loads d reference f manifestFile layerFile configFile := by
  obtain ⟨manifestFile, hfile, h⟩ := bind_ok h
  obtain ⟨manifest, hmanifest, h⟩ := bind_ok h
  obtain ⟨listed, hlisted, h⟩ := bind_ok h
  obtain ⟨layers, hlayers, h⟩ := bind_ok h
  obtain ⟨_, hone, h⟩ := bind_ok h
  obtain ⟨configDesc, hconfigDesc, h⟩ := bind_ok h
  obtain ⟨⟨configDigest, configName⟩, hconfigBlob, h⟩ := bind_ok h
  obtain ⟨blobs, hblobs, h⟩ := bind_ok h
  obtain ⟨configFile, hread, h⟩ := bind_ok h
  obtain ⟨config, hconfig, h⟩ := bind_ok h
  obtain ⟨architecture, harchitecture, h⟩ := bind_ok h
  obtain ⟨os, hos, h⟩ := bind_ok h
  obtain ⟨_, hplatform, h⟩ := bind_ok h
  have hboth := require_ok hplatform
  rw [Bool.and_eq_true, isStr_iff, isStr_iff] at hboth
  obtain ⟨rfl, rfl⟩ := hboth
  obtain ⟨layerDesc, rfl, rfl⟩ | ⟨s, rfl⟩ := iterate_one hlayers (by simpa using require_ok hone)
  · obtain ⟨⟨layerDigest, layer⟩, hlayerBlob, rfl⟩ := mapM_single.mp hblobs
    cases h
    obtain ⟨layerFile, hlayer⟩ := (checkBlob_eq_ok hhex).mp hlayerBlob
    obtain ⟨file, hconfigFile⟩ := (checkBlob_eq_ok hhex).mp hconfigBlob
    obtain rfl : file = configFile :=
      Option.some.inj (hconfigFile.there.symm.trans (readFile_eq_ok.mp hread).2)
    exact ⟨manifestFile, layerFile, file, ⟨manifest, configDesc, layerDesc, configName, config,
      hmanifest, hconfigDesc, hlisted, hconfigFile, hlayer, hconfig, harchitecture, hos⟩,
      (readFile_eq_ok.mp hfile).2, rfl, rfl⟩
  · obtain ⟨_, hblob, _⟩ := mapM_single.mp hblobs
    cases hblob

theorem fetchImage_of_verified (hhex : ∀ file, isSha256 (sha256 file) = true) {reference : Str}
    {f : Fetched} {manifestFile layerFile configFile : Bytes}
    (h : Verified sha256 loads d reference f manifestFile layerFile configFile) :
    fetchImage sha256 loads d reference = .ok f := by
  obtain ⟨manifest, configDesc, layerDesc, configName, config, hmanifest, hconfigDesc, hlisted,
    hconfigBlob, hlayerBlob, hconfig, harchitecture, hos⟩ := h.manifest
  have hfile : readFile d manifestName = .ok manifestFile :=
    readFile_eq_ok.mpr ⟨by decide, h.file⟩
  have hconfigFile : readFile d configName = .ok configFile := by
    apply readFile_eq_ok.mpr
    refine ⟨fun hmem => ?_, hconfigBlob.there⟩
    have hdigit := hex_of_isSha256 (hconfigBlob.verified ▸ hhex configFile) 0 hmem
    exact absurd hdigit.1 (by decide)
  have hconfigCheck := (checkBlob_eq_ok hhex).mpr ⟨configFile, hconfigBlob⟩
  have hblobs := mapM_single.mpr ⟨_, (checkBlob_eq_ok hhex).mpr ⟨layerFile, hlayerBlob⟩, rfl⟩
  have hlinux : ((Json.string (str "riscv64")).isStr (str "riscv64") &&
      (Json.string (str "linux")).isStr (str "linux")) = true := by decide
  simp only [fetchImage, hfile, hmanifest, hlisted, iterate, hconfigDesc, hconfigCheck, hblobs,
    hconfigFile, hconfig, harchitecture, hos, hlinux, bind_eq_ok, Except.ok.injEq, exists_eq_left',
    require_eq_ok, List.length_cons, List.length_nil, decide_true, exists_const, true_and, pure,
    Except.pure]
  obtain ⟨hdigest, hreference⟩ := h.recorded
  cases f
  simp_all

/-- A name that is a SHA-256 is that of a file in the directory itself. -/
theorem isChild_of_isSha256 {name : Str} (h : isSha256 name = true) : IsChild name := by
  have hdigits := hex_of_isSha256 h
  have hlength : name.length = 64 := by
    rw [isSha256, Bool.and_eq_true] at h
    exact of_decide_eq_true h.1
  constructor
  · rintro rfl
    cases hlength
  · rintro rfl
    cases hlength
  · rintro rfl
    cases hlength
  · intro hmem
    exact absurd (hdigits slash hmem).1 (by decide)
  · intro hmem
    exact absurd (hdigits 0 hmem).1 (by decide)

/-- An image is accepted exactly when it is one for linux/riscv64 with one layer
and every file that is used has the SHA-256 it is listed with. What is handed on
is a file of the download, not one a digest could lead to elsewhere. -/
theorem fetched_image_verified_iff (hhex : ∀ file, isSha256 (sha256 file) = true) (reference : Str)
    (f : Fetched) :
    (fetchImage sha256 loads d reference = .ok f ↔ ∃ manifestFile layerFile configFile,
      Verified sha256 loads d reference f manifestFile layerFile configFile) ∧
    (fetchImage sha256 loads d reference = .ok f → IsChild f.layer) := by
  have hverified := @verified_of_fetchImage sha256 loads d hhex reference f
  constructor
  · constructor
    · exact hverified
    · rintro ⟨manifestFile, layerFile, configFile, h⟩
      exact fetchImage_of_verified hhex h
  · intro h
    obtain ⟨_, layerFile, _, hf⟩ := hverified h
    obtain ⟨_, _, _, _, _, _, _, _, _, hlayer, _⟩ := hf.manifest
    exact isChild_of_isSha256 (hlayer.verified ▸ hhex layerFile)

/-- Whatever two downloads held and wherever they came from: with one digest of
the manifest they have one layer and one configuration, unless two of their
files collide. -/
theorem recorded_manifest_pins_layer (hhex : ∀ file, isSha256 (sha256 file) = true) {d' : Download}
    {reference reference' : Str} {f f' : Fetched}
    (h : fetchImage sha256 loads d reference = .ok f)
    (h' : fetchImage sha256 loads d' reference' = .ok f')
    (hapart : ∀ name name' file file', d.read name = some file → d'.read name' = some file' →
      sha256 file = sha256 file' → file = file')
    (hsame : f.manifestSha256 = f'.manifestSha256) :
    d.read f.layer = d'.read f'.layer ∧ f.layerDigest = f'.layerDigest ∧
      f.configDigest = f'.configDigest ∧ ∃ name file, f.configDigest = str "sha256:" ++ name ∧
        d.read name = some file ∧ d'.read name = some file := by
  obtain ⟨manifestFile, layerFile, configFile, hf⟩ := verified_of_fetchImage hhex h
  obtain ⟨manifestFile', layerFile', configFile', hf'⟩ := verified_of_fetchImage hhex h'
  obtain rfl : manifestFile = manifestFile' := by
    apply hapart _ _ _ _ hf.file hf'.file
    rw [← hf.recorded.1, ← hf'.recorded.1, hsame]
  obtain ⟨manifest, configDesc, layerDesc, config, _, hmanifest, hconfig, hlayers, hconfigBlob,
    hlayerBlob, -⟩ := hf.manifest
  obtain ⟨manifest', configDesc', layerDesc', config', _, hmanifest', hconfig', hlayers', hconfigBlob',
    hlayerBlob', -⟩ := hf'.manifest
  cases hmanifest.symm.trans hmanifest'
  cases hconfig.symm.trans hconfig'
  cases hlayers.symm.trans hlayers'
  have hlayerDigest : f.layerDigest = f'.layerDigest :=
    Json.string.inj (Except.ok.inj (hlayerBlob.digest.symm.trans hlayerBlob'.digest))
  have hconfigDigest : f.configDigest = f'.configDigest :=
    Json.string.inj (Except.ok.inj (hconfigBlob.digest.symm.trans hconfigBlob'.digest))
  have hname : f.layer = f'.layer := by
    have hspelled := hlayerBlob.spelled
    rw [hlayerDigest, hlayerBlob'.spelled] at hspelled
    exact (List.append_cancel_left hspelled).symm
  have hfile : layerFile = layerFile' := by
    apply hapart _ _ _ _ hlayerBlob.there hlayerBlob'.there
    rw [hlayerBlob.verified, hlayerBlob'.verified, hname]
  have hconfigName : config = config' := by
    have hspelled := hconfigBlob.spelled
    rw [hconfigDigest, hconfigBlob'.spelled] at hspelled
    exact (List.append_cancel_left hspelled).symm
  have hconfigFile : configFile = configFile' := by
    apply hapart _ _ _ _ hconfigBlob.there hconfigBlob'.there
    rw [hconfigBlob.verified, hconfigBlob'.verified, hconfigName]
  refine ⟨by rw [hlayerBlob.there, hlayerBlob'.there, hfile], hlayerDigest, hconfigDigest,
    config, configFile, hconfigBlob.spelled, hconfigBlob.there, ?_⟩
  rw [hconfigName, hconfigFile]
  exact hconfigBlob'.there

end

/-! ## A download -/

/-- A digest that tells short files by their lengths. -/
def shortSha (file : Bytes) : Str := List.replicate 63 0x30 ++ [0x30 + file.length % 10]

theorem shortSha_hex (file : Bytes) : isSha256 (shortSha file) = true := by
  have hlast : file.length % 10 < 10 := Nat.mod_lt _ (by decide)
  rw [isSha256, Bool.and_eq_true, decide_eq_true_eq, List.all_eq_true]
  constructor
  · simp [shortSha]
  · intro c hc
    have hdigit : 0x30 ≤ c ∧ c ≤ 0x39 := by
      obtain hzero | hone := List.mem_append.mp hc
      · have := List.eq_of_mem_replicate hzero
        omega
      · have := List.mem_singleton.mp hone
        omega
    simp [hdigit.1, hdigit.2]

def blobOf (file : String) : Json :=
  .object [(str "digest", .string (str "sha256:" ++ shortSha (ascii file)))]

def alpineLoads (t : Text) : Option Json :=
  if t = text "m" then
    some (.object [(str "config", blobOf "cc"), (str "layers", .array [blobOf "lll"])])
  else some (.object [(str "architecture", .string (str "riscv64")), (str "os", .string (str "linux"))])

/-- The directory, with files beside those of the image. -/
def alpineDownload (others : List (Str × Bytes)) : Download where
  read name := ([(manifestName, ascii "m"), (shortSha (ascii "cc"), ascii "cc"),
    (shortSha (ascii "lll"), ascii "lll")] ++ others).lookup name

def alpineFetched (reference : Str) : Fetched where
  layer := shortSha (ascii "lll")
  reference := reference
  manifestSha256 := shortSha (ascii "m")
  configDigest := str "sha256:" ++ shortSha (ascii "cc")
  layerDigest := str "sha256:" ++ shortSha (ascii "lll")

theorem fetched_image_verified_alpine : ∃ layerFile manifestFile configFile,
    Verified shortSha alpineLoads (alpineDownload []) (str "alpine:3.23") (alpineFetched (str "alpine:3.23"))
      manifestFile layerFile configFile ∧ IsChild (alpineFetched (str "alpine:3.23")).layer := by
  have hfetch : fetchImage shortSha alpineLoads (alpineDownload []) (str "alpine:3.23") =
      .ok (alpineFetched (str "alpine:3.23")) := by
    rfl
  have hboth := @fetched_image_verified_iff shortSha alpineLoads (alpineDownload []) shortSha_hex
    (str "alpine:3.23") (alpineFetched (str "alpine:3.23"))
  obtain ⟨manifestFile, layerFile, configFile, h⟩ := hboth.1.mp hfetch
  exact ⟨layerFile, manifestFile, configFile, h, hboth.2 hfetch⟩

theorem recorded_manifest_pins_layer_alpine :
    (alpineDownload []).read (shortSha (ascii "lll")) =
      (alpineDownload [(str "version", ascii "vvvv")]).read (shortSha (ascii "lll")) := by
  have hfetch : ∀ others reference, fetchImage shortSha alpineLoads (alpineDownload others) reference =
      .ok (alpineFetched reference) := fun _ _ => rfl
  have hlengths : ∀ others name file, (alpineDownload others).read name = some file →
      file ∈ [ascii "m", ascii "cc", ascii "lll"] ++ others.map (·.2) := by
    intro others name file h
    have hmem := List.mem_map_of_mem (f := (·.2)) (mem_of_lookup h)
    simpa using hmem
  refine (recorded_manifest_pins_layer shortSha_hex (hfetch [] (str "a"))
    (hfetch [(str "version", ascii "vvvv")] (str "b")) ?_ rfl).1
  intro name name' file file' h h' hsha
  have hmem := hlengths _ _ _ h
  have hmem' := hlengths _ _ _ h'
  simp only [List.map_nil, List.append_nil, List.map_cons, List.cons_append, List.nil_append,
    List.mem_cons, List.not_mem_nil, or_false] at hmem hmem'
  obtain rfl | rfl | rfl := hmem <;> obtain rfl | rfl | rfl | rfl := hmem' <;>
    first | rfl | exact absurd hsha (by decide)

end LinuxBuild.FetchImage
