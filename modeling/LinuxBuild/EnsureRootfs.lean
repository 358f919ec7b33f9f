import LinuxBuild.Bytes
import LinuxBuild.Crash
import LinuxBuild.Digest
import LinuxBuild.Fragment
import LinuxBuild.Util

/-!
# `scripts/ensure-rootfs.py`

The script as a program of file system acts over the Buildroot trees, the
published files and the cache. A tree also remembers the builds made in it
since its last clean, and the world the rootfs records, which no code reads.
-/

namespace LinuxBuild.Rootfs

open Crash

/-! ## Files -/

inductive Data where
  | bytes (bytes : Bytes)
  | text (text : Text)
  deriving DecidableEq

structure Identity where
  schema : Nat
  bits : Word
  fragmentSha256 : Hash
  sourceCommit : Text
  sourceDiffSha256 : Hash
  defconfigSha256 : Hash
  runtimeBaseline : List (Text × Hash)
  deriving DecidableEq

/-- A cache manifest, without its two times. -/
structure Record where
  identity : Identity
  rootfsSha256 : Hash
  actualConfigSha256 : Hash
  busyboxConfigSha256 : Hash
  busyboxRequiredFeatures : List Text
  buildTarget : Text
  deriving DecidableEq

inductive Content where
  | data (data : Data)
  | record (record : Record)
  deriving DecidableEq

/-- A torn file is one whose writing was begun and not finished. -/
inductive File where
  | absent
  | torn (part : Content)
  | whole (content : Content)
  deriving DecidableEq

def File.content? : File → Option Content
  | .absent => none
  | .torn part => some part
  | .whole content => some content

inductive CacheFile where
  | initramfs
  | buildrootConfig
  | busyboxConfig
  | requestedConfig
  | manifest
  deriving DecidableEq, Repr

abbrev Entry := CacheFile → File

def Entry.empty : Entry := fun _ => .absent

def Entry.set (entry : Entry) (f : CacheFile) (file : File) : Entry :=
  fun g => if g = f then file else entry g

/-! ## The world -/

/-- What the script is asked for, and the sources it finds. -/
structure Request where
  bits : Word
  fragment : Text
  sourceCommit : Text
  sourceDiff : Bytes
  defconfig : Bytes
  busyboxFragment : Text
  overlay : List (Text × Bytes)

/-- `buildroot{bits}`. `stamp` is the text of `.raptor-rootfs-config` without
its newline, empty while it is being written. `builds` are the requests built
since the last clean that was completed. -/
structure Tree where
  stamp : Option Hash
  builtImage : Option Bytes
  builds : List Request

/-- The files in the root: the rootfs, its stamp and its manifest. -/
structure Published where
  output : File
  legacyStamp : Option Hash
  manifest : File

structure Recorded where
  request : Request
  incremental : Bool
  builds : List Request

/-- `entries` are the cache directories named by a key. `leftovers` are the
others: superseded ones, and staging directories of stopped runs. -/
structure World (Key : Type) where
  trees : Word → Tree
  published : Word → Published
  entries : List (Key × Entry)
  leftovers : List Entry
  staging : Option Entry
  records : List Recorded

/-- `key` is the SHA-256 of the identity as JSON with sorted keys. -/
structure Tools (Key : Type) where
  sha : Digest Data
  md5 : Digest Text
  key : Identity → Key
  key_injective : Function.Injective key

/-- What the external programs do in one run. A failing make stops after some
of its acts. `cut` says where a write is torn, `order` how the staging
directory is listed. -/
structure Externals where
  cleanStops : Option Nat
  buildStops : Option Nat
  image : Bytes
  buildrootConfig : Text
  busyboxConfigs : List Text
  cut : Nat
  order : List CacheFile
  listed : ∀ f, f ∈ order

inductive Failure where
  | calledProcessError
  | jsonDecodeError
  | fileNotFoundError
  | fileExistsError
  | integrityFailure
  | busyboxCount
  | missingFeatures (missing : List Text)
  deriving DecidableEq

variable {Key : Type} [DecidableEq Key]

def Request.identity (sha : Digest Data) (r : Request) : Identity where
  schema := 2
  bits := r.bits
  fragmentSha256 := sha.hash (.text r.fragment)
  sourceCommit := r.sourceCommit
  sourceDiffSha256 := sha.hash (.bytes r.sourceDiff)
  defconfigSha256 := sha.hash (.bytes r.defconfig)
  runtimeBaseline := (text "rootfs/busybox.fragment", sha.hash (.text r.busyboxFragment)) ::
    r.overlay.map fun (name, bytes) => (name, sha.hash (.bytes bytes))

def Tools.keyOf (tools : Tools Key) (r : Request) : Key := tools.key (r.identity tools.sha)

namespace World

def setTree (bits : Word) (f : Tree → Tree) (w : World Key) : World Key :=
  { w with trees := fun b => if b = bits then f (w.trees b) else w.trees b }

def setPublished (bits : Word) (f : Published → Published) (w : World Key) : World Key :=
  { w with published := fun b => if b = bits then f (w.published b) else w.published b }

def setStamp (bits : Word) (h : Hash) : World Key → World Key :=
  setTree bits fun t => { t with stamp := some h }

def setOutput (bits : Word) (file : File) : World Key → World Key :=
  setPublished bits fun p => { p with output := file }

def setLegacyStamp (bits : Word) (h : Hash) : World Key → World Key :=
  setPublished bits fun p => { p with legacyStamp := some h }

def setManifest (bits : Word) (file : File) : World Key → World Key :=
  setPublished bits fun p => { p with manifest := file }

def entry (w : World Key) (k : Key) : Option Entry := w.entries.lookup k

def addEntry (k : Key) (w : World Key) : World Key :=
  { w with entries := (k, Entry.empty) :: w.entries }

def setEntry (k : Key) (f : CacheFile) (file : File) (w : World Key) : World Key :=
  { w with entries := w.entries.map fun (k', e) => (k', if k' = k then e.set f file else e) }

/-- `cache.rename(...superseded...)`. -/
def retire (k : Key) (w : World Key) : World Key :=
  { w with
    entries := w.entries.filter fun (k', _) => k' ≠ k
    leftovers := w.leftovers ++ (w.entry k).toList }

/-- `tempfile.TemporaryDirectory`; what a stopped run staged stays behind. -/
def addStaging (w : World Key) : World Key :=
  { w with leftovers := w.leftovers ++ w.staging.toList, staging := some Entry.empty }

def setStaging (f : CacheFile) (file : File) (w : World Key) : World Key :=
  { w with staging := w.staging.map (·.set f file) }

def dropStaging (w : World Key) : World Key := { w with staging := none }

/-- What `cache_root.glob('*/requested.config')` reads. -/
def requestedConfigs (w : World Key) : List Text :=
  (w.entries.map (·.2) ++ w.leftovers ++ w.staging.toList).filterMap fun e =>
    match (e .requestedConfig).content? with
    | some (.data (.text t)) => some t
    | _ => none

end World

/-! ## Acts -/

/-- The contents a file passes through before it is whole. -/
def Content.parts (cut : Nat) : Content → List Content
  | .data (.bytes b) =>
    .data (.bytes []) :: if cut < b.length then [.data (.bytes (b.take cut))] else []
  | .data (.text t) => .data (.text []) :: if cut < t.length then [.data (.text (t.take cut))] else []
  | .record _ => [.data (.text [])]

def writing (put : File → World Key → World Key) (cut : Nat) (c : Content) :
    List (World Key → World Key) :=
  (c.parts cut).map (put ∘ .torn) ++ [put (.whole c)]

/-- `write_text` of a stamp. -/
def stamping (put : Hash → World Key → World Key) (h : Hash) : List (World Key → World Key) :=
  [put [], put h]

def dropImage (bits : Word) : World Key → World Key :=
  World.setTree bits fun t => { t with builtImage := none }

/-- The end of `clean_buildroot_outputs`. -/
def emptied (bits : Word) : World Key → World Key :=
  World.setTree bits fun t => { t with builds := [] }

def beginBuild (r : Request) : World Key → World Key :=
  World.setTree r.bits fun t => { t with builds := t.builds ++ [r] }

def setImage (bits : Word) (image : Bytes) : World Key → World Key :=
  World.setTree bits fun t => { t with builtImage := some image }

def addRecord (r : Request) (incremental : Bool) (w : World Key) : World Key :=
  { w with records := w.records ++ [⟨r, incremental, (w.trees r.bits).builds⟩] }

/-- `subprocess.run(..., check=True)` of a make. -/
def runMake (stops : Option Nat) (fs : List (World Key → World Key))
    (next : Prog (World Key) Failure) : Prog (World Key) Failure :=
  match stops with
  | none => acts fs next
  | some n => acts (fs.take n) (.raise .calledProcessError)

/-- `make_initramfs_buildroot`: packages go into the target, the image is
built, copied out, and its stamp written. -/
def buildActs (tools : Tools Key) (r : Request) (e : Externals) : List (World Key → World Key) :=
  [beginBuild r, setImage r.bits e.image] ++
    writing (World.setOutput r.bits) e.cut (.data (.bytes e.image)) ++
    stamping (World.setLegacyStamp r.bits) (tools.md5.hash r.fragment)

/-! ## The cache -/

inductive ManifestRead where
  | missing
  | unreadable
  | record (record : Record)

def readManifest (k : Key) (w : World Key) : ManifestRead :=
  match w.entry k with
  | none => .missing
  | some entry =>
    match entry .manifest with
    | .absent => .missing
    | .whole (.record record) => .record record
    | _ => .unreadable

/-- A manifest without verified BusyBox configuration. -/
def unverified (prior : Record) : Bool :=
  prior.busyboxRequiredFeatures = [] || prior.busyboxConfigSha256 = []

def File.digest? (sha : Digest Data) (file : File) : Option Hash :=
  match file.content? with
  | some (.data d) => some (sha.hash d)
  | _ => none

/-- The branch for a cache hit. -/
def useCache (tools : Tools Key) (r : Request) (e : Externals) (record : Record) :
    Prog (World Key) Failure :=
  .ask fun w =>
    if record.identity ≠ r.identity tools.sha then .raise .integrityFailure
    else
      match w.entry (tools.keyOf r) with
      | none => .raise .fileNotFoundError
      | some entry =>
        match (entry .initramfs).content?, (entry .initramfs).digest? tools.sha with
        | some rootfs, some h =>
          if h ≠ record.rootfsSha256 then .raise .integrityFailure
          else
            match (entry .busyboxConfig).digest? tools.sha with
            | none => .raise .fileNotFoundError
            | some h =>
              if h ≠ record.busyboxConfigSha256 then .raise .integrityFailure
              else
                acts (writing (World.setOutput r.bits) e.cut rootfs ++
                  stamping (World.setLegacyStamp r.bits) (tools.md5.hash r.fragment) ++
                  writing (World.setManifest r.bits) e.cut (.record record)) .done
        | _, _ => .raise .fileNotFoundError

/-- `same_config`. -/
def sameConfig (tools : Tools Key) (r : Request) (w : World Key) : Bool :=
  match (w.trees r.bits).stamp with
  | some previous =>
    previous == tools.md5.hash r.fragment ||
      match w.requestedConfigs.find? (tools.md5.hash · == previous) with
      | some old => onlyAddsPackages old r.fragment
      | none => false
  | none =>
    match (w.published r.bits).output.digest? tools.sha, (w.trees r.bits).builtImage,
        (w.published r.bits).legacyStamp with
    | some output, some image, some legacy =>
      legacy == tools.md5.hash r.fragment && output == tools.sha.hash (.bytes image)
    | _, _, _ => false

/-! ## The program -/

def requiredFeatures (r : Request) : List Text :=
  (Python.splitlines r.busyboxFragment).filter (Python.startswith · (text "CONFIG_"))

def newRecord (tools : Tools Key) (r : Request) (e : Externals) (incremental : Bool)
    (image : Data) (busyboxConfig : Text) : Record where
  identity := r.identity tools.sha
  rootfsSha256 := tools.sha.hash image
  actualConfigSha256 := tools.sha.hash (.text e.buildrootConfig)
  busyboxConfigSha256 := tools.sha.hash (.text busyboxConfig)
  busyboxRequiredFeatures := requiredFeatures r
  buildTarget :=
    if incremental then text "make_initramfs_buildroot" else text "make_initramfs_buildroot_clean"

/-- What the staging directory holds, file by file. -/
def staged (r : Request) (e : Externals) (image : Data) (busyboxConfig : Text) (record : Record) :
    CacheFile → Content
  | .initramfs => .data image
  | .buildrootConfig => .data (.text e.buildrootConfig)
  | .busyboxConfig => .data (.text busyboxConfig)
  | .requestedConfig => .data (.text r.fragment)
  | .manifest => .record record

/-- `shutil.copytree(staging, cache)` and what follows it. -/
def copytree (tools : Tools Key) (r : Request) (e : Externals) (files : CacheFile → Content) :
    Prog (World Key) Failure :=
  .ask fun w =>
    if (w.entry (tools.keyOf r)).isSome then .act World.dropStaging (.raise .fileExistsError)
    else
      .act (World.addEntry (tools.keyOf r)) <|
      acts (e.order.flatMap fun f => writing (World.setEntry (tools.keyOf r) f) e.cut (files f)) <|
      .act World.dropStaging <|
      acts (writing (World.setManifest r.bits) e.cut (files .manifest)) .done

def stagedFiles : List CacheFile :=
  [.initramfs, .buildrootConfig, .busyboxConfig, .requestedConfig, .manifest]

def publish (tools : Tools Key) (r : Request) (e : Externals) (incremental : Bool)
    (busyboxConfig : Text) : Prog (World Key) Failure :=
  .ask fun w =>
    match (w.published r.bits).output.content? with
    | some (.data image) =>
      let files := staged r e image busyboxConfig
        (newRecord tools r e incremental image busyboxConfig)
      .act (addRecord r incremental) <|
      .act World.addStaging <|
      acts (stagedFiles.flatMap fun f => writing (World.setStaging f) e.cut (files f)) <|
      copytree tools r e files
    | _ => .raise .fileNotFoundError

def checkBuild (tools : Tools Key) (r : Request) (e : Externals) (incremental : Bool) :
    Prog (World Key) Failure :=
  match e.busyboxConfigs with
  | [busyboxConfig] =>
    let missing := (requiredFeatures r).filter fun line =>
      !(Python.splitlines busyboxConfig).contains line
    if missing ≠ [] then .raise (.missingFeatures missing)
    else publish tools r e incremental busyboxConfig
  | _ => .raise .busyboxCount

def build (tools : Tools Key) (r : Request) (e : Externals) (incremental : Bool) :
    Prog (World Key) Failure :=
  acts (stamping (World.setStamp r.bits) (tools.md5.hash r.fragment)) <|
  runMake e.buildStops (buildActs tools r e) <|
  checkBuild tools r e incremental

def rebuild (tools : Tools Key) (r : Request) (e : Externals) : Prog (World Key) Failure :=
  .ask fun w =>
    if sameConfig tools r w then build tools r e true
    else runMake e.cleanStops [dropImage r.bits, emptied r.bits] (build tools r e false)

def lookupCache (tools : Tools Key) (r : Request) (e : Externals) : Prog (World Key) Failure :=
  .ask fun w =>
    match readManifest (tools.keyOf r) w with
    | .unreadable => .raise .jsonDecodeError
    | .record record => useCache tools r e record
    | .missing => rebuild tools r e

/-- `main`, from the cache lookup on. -/
def ensure (tools : Tools Key) (r : Request) (e : Externals) : Prog (World Key) Failure :=
  .ask fun w =>
    match readManifest (tools.keyOf r) w with
    | .unreadable => .raise .jsonDecodeError
    | .record prior =>
      if unverified prior then .act (World.retire (tools.keyOf r)) (lookupCache tools r e)
      else lookupCache tools r e
    | .missing => lookupCache tools r e

/-- The world in which the second look at the cache finds it. -/
def settled (tools : Tools Key) (r : Request) (w : World Key) : World Key :=
  match readManifest (tools.keyOf r) w with
  | .record prior => if unverified prior then w.retire (tools.keyOf r) else w
  | _ => w

/-! ## Histories -/

/-- A run that is stopped after `stop` acts, or ends before. A signal that
Python turns into an exception still leaves the `with` block. -/
structure Run where
  request : Request
  externals : Externals
  stop : Nat
  unwinds : Bool

def Run.after (tools : Tools Key) (run : Run) (w : World Key) : World Key :=
  let w := stopped run.stop (ensure tools run.request run.externals) w
  if run.unwinds then w.dropStaging else w

def history (tools : Tools Key) (runs : List Run) (w : World Key) : World Key :=
  runs.foldl (fun w run => run.after tools w) w

/-- Fresh Buildroot trees beside whatever cache and outputs there are. -/
def World.fresh (entries : List (Key × Entry)) (published : Word → Published) : World Key where
  trees _ := ⟨none, none, []⟩
  published := published
  entries := entries
  leftovers := []
  staging := none
  records := []

/-! ## Concrete runs -/

def Data.codes : Data → List Nat
  | .bytes b => 0 :: b.map UInt8.toNat
  | .text t => 1 :: t.map Char.toNat

theorem Data.codes_injective : Function.Injective Data.codes := by
  intro a b h
  cases a <;> cases b <;> simp only [Data.codes, List.cons.injEq, Nat.zero_ne_one, Nat.one_ne_zero,
    false_and, true_and] at h
  · rw [Digest.bytes_injective h]
  · rw [Digest.chars_injective h]

/-- Contents as their own digests. -/
def plainTools : Tools Identity where
  sha := .verbatim Data.codes Data.codes_injective
  md5 := .verbatim _ Digest.chars_injective
  key := id
  key_injective _ _ h := h

/-- A request on fixed sources. -/
def plainRequest (fragment : Text) : Request where
  bits := .rv64
  fragment := fragment
  sourceCommit := text "a1"
  sourceDiff := []
  defconfig := ascii "BR2_riscv=y"
  busyboxFragment := text "CONFIG_ASH=y\n"
  overlay := [(text "rootfs/overlay/etc/issue", ascii "hello")]

/-- Everything the run asks of other programs succeeds. -/
def plainExternals : Externals where
  cleanStops := none
  buildStops := none
  image := ascii "cpio"
  buildrootConfig := text "BR2_riscv=y\n"
  busyboxConfigs := [text "CONFIG_ASH=y\n"]
  cut := 2
  order := stagedFiles
  listed f := by cases f <;> decide

def plainRun (request : Request) : Run := ⟨request, plainExternals, 100, false⟩

/-- No outputs in the root. -/
def unpublished : Word → Published := fun _ => ⟨.absent, none, .absent⟩

end LinuxBuild.Rootfs
