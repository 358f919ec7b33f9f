import LinuxBuild.Console
import LinuxBuild.Crash
import LinuxBuild.Repository
import LinuxBuild.Toml

/-!
# `build` of `scripts/build-distro.py`

A disk is provisioned once and then belongs to its guest. What the external
tools do is told by the call.
-/

namespace LinuxBuild.Distro

open Crash Repository Toml

inductive Failure where
  | valueError (message : Text)
  | raised

/-! ## The preset -/

/-- `re.fullmatch('[A-Za-z0-9][A-Za-z0-9./:@_-]*', s)`. -/
def isImage : Text → Bool
  | [] => false
  | c :: rest => c.isAlphanum && rest.all fun c => c.isAlphanum || (text "./:@_-").contains c

def isLowerAlphanum (c : Char) : Bool := c.isLower || c.isDigit

/-- `re.fullmatch('[a-z0-9][a-z0-9+_.-]*', s)`. -/
def isPackage : Text → Bool
  | [] => false
  | c :: rest => isLowerAlphanum c && rest.all fun c => isLowerAlphanum c || (text "+_.-").contains c

inductive Kind where
  | alpine
  | debian
  deriving DecidableEq

/-- `[rootfs]` of an accepted preset. -/
structure Config where
  rootfs : Value
  kind : Kind
  image : Text
  sizeMib : Int
  packages : List Text
  imageOk : isImage image = true
  sizeOk : 128 ≤ sizeMib
  packagesOk : ∀ p ∈ packages, isPackage p = true

def kindOf (v : Value) : Option Kind :=
  if v.isText (text "alpine") then some .alpine
  else if v.isText (text "debian") then some .debian
  else none

/-- The items of a list of strings that are all plain package names. -/
def packageNames (v : Value) : Option { packages : List Text // ∀ p ∈ packages, isPackage p = true } :=
  match v with
  | .array items =>
    match items.mapM Value.string? with
    | some packages => if h : ∀ p ∈ packages, isPackage p = true then some ⟨packages, h⟩ else none
    | none => none
  | _ => none

open Python (orRaise)

/-- `load_config` of a parsed preset. -/
def loadConfig (cfg : Value) : Except Failure Config := do
  let fs ← orRaise (cfg.item? (text "rootfs")) .raised
  let arch ← orRaise ((cfg.item? (text "target")).bind (·.item? (text "arch"))) .raised
  let notDistro := Failure.valueError (text "requires an Alpine/Debian riscv64 preset")
  if arch.isText (text "riscv64") then
    let kind ← orRaise (kindOf (← orRaise (fs.item? (text "type")) .raised)) notDistro
    let image ← orRaise ((fs.item? (text "image")).bind Value.string?) .raised
    if himage : isImage image = true then
      match ← orRaise (fs.item? (text "size_mib")) .raised with
      | .integer size =>
        if hsize : 128 ≤ size then
          let packages ← orRaise
            (packageNames ((fs.item? (text "packages")).getD (.array [])))
            (.valueError (text "rootfs.packages must contain plain package names"))
          return ⟨fs, kind, image, size, packages.1, himage, hsize, packages.2⟩
        else throw (.valueError (text "rootfs.size_mib must be an integer >= 128"))
      | _ => throw (.valueError (text "rootfs.size_mib must be an integer >= 128"))
    else throw (.valueError (text "invalid OCI image reference"))
  else throw notDistro

/-! ## A call -/

/-- What `fetch_image` says of a verified image. -/
structure Provenance where
  reference : Text
  manifestSha256 : Hash
  configDigest : Text
  layerDigest : Text

def seedImage : Text := text "docker.io/library/alpine:3.23"

/-- The arguments of a call, the repository it reads, and what the tools make:
`disk` is the image `prepare_guest` leaves, `provisioned` what QEMU makes of it,
`cut` where a write is torn. -/
structure Call where
  tree : Tree
  preset : Path
  output : Path
  pristine : Bool
  missing : Option Text
  kernel : Option Bytes
  firmware : Option Bytes
  fetch : Text → Except Failure Provenance
  disk : Option Bytes
  console : Bytes
  provisioned : Bytes
  exited : Bool
  fsck : Bytes → Bool
  inventory : Bytes → Option Text
  linkable : Bool
  cut : Nat

/-- `p.name.encode() + p.read_bytes()` of the runtime files, in order. -/
def runtimeBytes (t : Tree) : Option Bytes := do
  let parts ← (sorted (← t.iterdir rootfsDistro)).mapM fun p => do
    return (fileName p).flatMap String.utf8EncodeChar ++ (← t.file? p)
  return parts.flatten

def fingerprint (sha : Digest Bytes) (t : Tree) (preset : Path) : Option Hash := do
  return sha.hash ((← t.file? preset) ++ (← t.file? (script "build-distro.py")) ++ (← runtimeBytes t))

/-! ## The files beside the output -/

structure Record where
  schema : Nat
  preset : Text
  inputsSha256 : Hash
  baseImage : Provenance
  bootstrapImage : Provenance
  rootfs : Value
  platform : Text
  rootfsSha256 : Hash
  packages : List Text
  builder : Text
  buildLogSha256 : Hash
  kernelSha256 : Hash
  firmwareSha256 : Hash

/-- A torn record is one whose writing was begun and not finished: no JSON. -/
inductive RecordFile where
  | absent
  | torn
  | whole (record : Record)

/-- The disk as it was linked, and the log there was then. No code reads it. -/
structure Construction where
  disk : Bytes
  log : Bytes

/-- The output, its `.json` and its `.build.log`. -/
structure Store where
  output : Option Bytes
  manifest : RecordFile
  log : Option Bytes
  constructed : Option Construction

namespace Store

def fresh : Store := ⟨none, .absent, none, none⟩

def setLog (log : Bytes) (s : Store) : Store := { s with log := some log }

def setManifest (file : RecordFile) (s : Store) : Store := { s with manifest := file }

/-- `os.link` does not replace what is there. -/
def link (disk : Bytes) (s : Store) : Store :=
  match s.output with
  | some _ => s
  | none => { s with output := some disk, constructed := s.log.map fun log => ⟨disk, log⟩ }

end Store

/-- `log.read_text(errors='replace').replace('\r', '')`. -/
def logText (log : Bytes) : Text :=
  Console.dropReturns (Python.universalNewlines (Utf8.decode log))

/-- The provisioning log says that it passed, and nothing else. -/
def passed (log : Bytes) : Bool :=
  Console.contains (text "\nRAPT_PROVISION_PASS\n") (logText log) &&
    !Console.contains (text "RAPT_PROVISION_FAIL") (logText log) &&
    !Console.contains (text "Kernel panic") (logText log)

/-! ## The program -/

variable (toml : Bytes → Option Value) (sha : Digest Bytes)

/-- `str(path)` of an absolute path. -/
def shown (p : Path) : Text := p.flatMap ('/' :: ·)

def withSuffix (p : Path) (ending : Text) : Path := p.dropLast ++ [stem p ++ ending]

def different (c : Call) : Failure :=
  .valueError (shown c.output ++
    text " already exists with different inputs; choose a new BUILD_ROOT or move it aside")

/-- `build` when the output exists. -/
def reuse (c : Call) (inputs : Hash) (disk : Bytes) : RecordFile → Prog Store Failure
  | .absent => .raise (different c)
  | .torn => .raise .raised
  | .whole record =>
    if record.inputsSha256 = inputs then
      if c.pristine = true ∧ record.rootfsSha256 ≠ sha.hash disk then
        .raise (.valueError
          (text "release disk modified since construction; choose a clean build directory"))
      else .done
    else .raise (different c)

/-- What is there when QEMU is started. -/
structure Prepared where
  base : Provenance
  seed : Provenance
  kernel : Bytes
  firmware : Bytes
  disk : Bytes

def prepare (c : Call) (cfg : Config) : Except Failure Prepared := do
  match c.missing with
  | some tool => throw (.valueError (text "missing host tool: " ++ tool))
  | none => pure ()
  match c.kernel, c.firmware with
  | some kernel, some firmware =>
    let base ← c.fetch cfg.image
    let seed ← if cfg.image = seedImage then pure base else c.fetch seedImage
    return ⟨base, seed, kernel, firmware, ← orRaise c.disk .raised⟩
  | _, _ => throw (.valueError
      (text "build the distro kernel and OpenSBI before provisioning the rootfs"))

def record (c : Call) (cfg : Config) (inputs : Hash) (p : Prepared) (log : Bytes)
    (inventory : Text) : Record where
  schema := 2
  preset := fileName c.preset
  inputsSha256 := inputs
  baseImage := p.base
  bootstrapImage := p.seed
  rootfs := cfg.rootfs
  platform := text "linux/riscv64"
  rootfsSha256 := sha.hash c.provisioned
  packages := Python.splitlines inventory
  builder := text "qemu-system-riscv64"
  buildLogSha256 := sha.hash log
  kernelSha256 := sha.hash p.kernel
  firmwareSha256 := sha.hash p.firmware

/-- From the end of QEMU on. -/
def publish (c : Call) (cfg : Config) (inputs : Hash) (p : Prepared) (log : Bytes) :
    Prog Store Failure :=
  if passed log = false then
    .raise (.valueError (text "guest provisioning failed; inspect " ++
      shown (withSuffix c.output (text ".build.log"))))
  else if c.fsck c.provisioned = false then .raise .raised
  else
    match c.inventory c.provisioned with
    | none => .raise .raised
    | some inventory =>
      if Python.strip inventory = [] then
        .raise (.valueError (text "missing guest package inventory"))
      else
        .ask fun s =>
          if c.linkable = false ∨ s.output.isSome = true then .raise .raised
          else
            acts [Store.link c.provisioned, Store.setManifest .torn,
              Store.setManifest (.whole (record sha c cfg inputs p log inventory))] .done

/-- `build` when there is no output. -/
def provision (c : Call) (cfg : Config) (inputs : Hash) : Prog Store Failure :=
  match prepare c cfg with
  | .error e => .raise e
  | .ok p =>
    acts [Store.setLog [], Store.setLog (c.console.take c.cut), Store.setLog c.console] <|
      if c.exited = false then .raise .raised
      else
        .ask fun s =>
          match s.log with
          | none => .raise .raised
          | some log => publish sha c cfg inputs p log

def build (c : Call) : Prog Store Failure :=
  match (c.tree.file? c.preset).bind toml with
  | none => .raise .raised
  | some preset =>
    match loadConfig preset, fingerprint sha c.tree c.preset with
    | .error e, _ => .raise e
    | .ok _, none => .raise .raised
    | .ok cfg, some inputs =>
      .ask fun s =>
        match s.output with
        | some disk => reuse sha c inputs disk s.manifest
        | none => provision sha c cfg inputs

/-! ## Histories -/

/-- A call that is stopped after some of its steps, or a guest that has used
the disk. -/
inductive Event where
  | call (c : Call) (stop : Nat)
  | guest (disk : Bytes)

def Store.next (s : Store) : Event → Store
  | .call c stop => stopped stop (build toml sha c) s
  | .guest disk => { s with output := s.output.map fun _ => disk }

def after (events : List Event) : Store := events.foldl (Store.next toml sha) .fresh

/-! ## An existing disk -/

theorem link_keeps {s : Store} {d : Bytes} (disk : Bytes) (h : s.output = some d) :
    (s.link disk).output = some d := by
  simp only [Store.link, h]

def KeepsDisk (d : Bytes) (f : Store → Store) : Prop :=
  ∀ s, s.output = some d → (f s).output = some d

theorem publish_keeps (c : Call) (cfg : Config) (inputs : Hash) (p : Prepared) (log d : Bytes) :
    ActsOnly (KeepsDisk d) (publish sha c cfg inputs p log) := by
  unfold publish
  split
  · trivial
  split
  · trivial
  split
  · trivial
  split
  · trivial
  apply actsOnly_ask
  intro s
  split
  · trivial
  · exact ⟨fun _ h => link_keeps _ h, fun _ h => h, fun _ h => h, trivial⟩

theorem provision_keeps (c : Call) (cfg : Config) (inputs : Hash) (d : Bytes) :
    ActsOnly (KeepsDisk d) (provision sha c cfg inputs) := by
  unfold provision
  split
  · trivial
  · refine ⟨fun _ h => h, fun _ h => h, fun _ h => h, ?_⟩
    split
    · trivial
    · apply actsOnly_ask
      intro s
      split
      · trivial
      · apply publish_keeps

theorem reuse_keeps (c : Call) (inputs : Hash) (disk : Bytes) (file : RecordFile) (d : Bytes) :
    ActsOnly (KeepsDisk d) (reuse sha c inputs disk file) := by
  unfold reuse
  split
  · trivial
  · trivial
  · split
    · split <;> trivial
    · trivial

/-- No act of a call changes a disk that is there. -/
theorem build_keeps (c : Call) (d : Bytes) : ActsOnly (KeepsDisk d) (build toml sha c) := by
  unfold build
  split
  · trivial
  split
  · trivial
  · trivial
  apply actsOnly_ask
  intro s
  split
  · apply reuse_keeps
  · apply provision_keeps

/-! ## A disk that appears -/

/-- A record is of the disk as it was linked, and there is none without a disk. -/
structure Sound (s : Store) : Prop where
  unlinked : s.output = none → s.manifest = .absent
  recorded : ∀ r, s.manifest = .whole r →
    ∃ built, s.constructed = some built ∧ r.rootfsSha256 = sha.hash built.disk

variable {sha}

theorem Sound.setLog {s : Store} (h : Sound sha s) (log : Bytes) : Sound sha (s.setLog log) :=
  ⟨h.unlinked, h.recorded⟩

variable (sha)

/-- The disk there is was linked behind the checks of the call. -/
structure Checked (c : Call) (s : Store) : Prop extends Sound sha s where
  behind : ∀ d, s.output = some d →
    ∃ log, s.log = some log ∧ passed log = true ∧ c.fsck d = true

variable {sha}

theorem Sound.checked {s : Store} (h : Sound sha s) (hnone : s.output = none) (c : Call) :
    Checked sha c s :=
  { h with
    behind := fun d hd => by
      rw [hnone] at hd
      cases hd }

theorem safe_publish {c : Call} {cfg : Config} {inputs : Hash} {p : Prepared} {log : Bytes}
    {s : Store} (h : Sound sha s) (hnone : s.output = none) (hlog : s.log = some log) :
    Safe (Checked sha c) (publish sha c cfg inputs p log) s := by
  have hstart : Checked sha c s := h.checked hnone c
  unfold publish
  split
  · exact safe_raise hstart
  rename_i hpassed
  split
  · exact safe_raise hstart
  rename_i hfsck
  split
  · exact safe_raise hstart
  split
  · exact safe_raise hstart
  apply safe_ask
  split
  · exact safe_raise hstart
  have hlink : s.link c.provisioned =
      { s with output := some c.provisioned, constructed := some ⟨c.provisioned, log⟩ } := by
    simp only [Store.link, hnone, hlog, Option.map_some]
  have hlinked : ∀ file, (∀ r, file = .whole r → r.rootfsSha256 = sha.hash c.provisioned) →
      Checked sha c ((s.link c.provisioned).setManifest file) := by
    intro file hfile
    rw [hlink]
    refine ⟨⟨fun hout => (by cases hout), fun r hr => ⟨_, rfl, hfile r hr⟩⟩, fun d hd => ?_⟩
    cases hd
    exact ⟨log, hlog, by simpa using hpassed, by simpa using hfsck⟩
  have hnofile : s.link c.provisioned = (s.link c.provisioned).setManifest .absent := by
    rw [hlink, ← h.unlinked hnone]
    rfl
  apply safe_cons hstart
  apply safe_cons
  · rw [hnofile]
    exact hlinked _ (by simp)
  apply safe_cons
  · exact hlinked .torn (by simp)
  apply safe_done
  apply hlinked
  rintro r ⟨⟩
  rfl

theorem safe_provision {c : Call} {cfg : Config} {inputs : Hash} {s : Store} (h : Sound sha s)
    (hnone : s.output = none) : Safe (Checked sha c) (provision sha c cfg inputs) s := by
  have hlogged : ∀ log, Checked sha c (s.setLog log) := fun log => (h.setLog log).checked hnone c
  unfold provision
  split
  · exact safe_raise (h.checked hnone c)
  · apply safe_cons (h.checked hnone c)
    apply safe_cons (hlogged _)
    apply safe_cons (hlogged _)
    change Safe (Checked sha c) _ (s.setLog c.console)
    split
    · exact safe_raise (hlogged _)
    · apply safe_ask
      exact safe_publish (h.setLog _) hnone rfl

variable {toml}

/-- A call that finds no disk leaves one only behind its checks, wherever it
stops. -/
theorem build_checked (c : Call) {s : Store} (h : Sound sha s) (hnone : s.output = none) :
    Safe (Checked sha c) (build toml sha c) s := by
  have hstart : Checked sha c s := h.checked hnone c
  unfold build
  split
  · exact safe_raise hstart
  split
  · exact safe_raise hstart
  · exact safe_raise hstart
  · apply safe_ask
    rw [hnone]
    exact safe_provision h hnone

/-- A call that finds a disk does nothing. -/
theorem build_existing (c : Call) {s : Store} {d : Bytes} (h : s.output = some d) (n : Nat) :
    stopped n (build toml sha c) s = s := by
  have hdone : ∀ n, stopped n (.done : Prog Store Failure) s = s := fun n => by cases n <;> rfl
  have hraise : ∀ n e, stopped n (.raise e : Prog Store Failure) s = s :=
    fun n e => by cases n <;> rfl
  unfold build
  split
  · exact hraise n _
  split
  · exact hraise n _
  · exact hraise n _
  rename_i cfg inputs _ _
  have hask : stopped n (.ask fun s =>
      match s.output with
      | some disk => reuse sha c inputs disk s.manifest
      | none => provision sha c cfg inputs) s = stopped n (reuse sha c inputs d s.manifest) s := by
    cases n <;> simp only [stopped, h]
  rw [hask]
  unfold reuse
  split
  · exact hraise n _
  · exact hraise n _
  · split
    · split
      · exact hraise n _
      · exact hdone n
    · exact hraise n _

/-! ## Histories -/

theorem sound_next {s : Store} (h : Sound sha s) (e : Event) : Sound sha (s.next toml sha e) := by
  cases e with
  | call c stop =>
    cases hout : s.output with
    | none => exact (build_checked c h hout stop).toSound
    | some d =>
      have hsame : stopped stop (build toml sha c) s = s := build_existing c hout stop
      rw [Store.next, hsame]
      exact h
  | guest disk =>
    refine ⟨fun hout => h.unlinked ?_, h.recorded⟩
    simpa [Store.next] using hout

theorem sound_after (events : List Event) : Sound sha (after toml sha events) := by
  have hfrom : ∀ s, Sound sha s → Sound sha (events.foldl (Store.next toml sha) s) := by
    induction events with
    | nil => exact fun s h => h
    | cons e events ih => exact fun s h => ih _ (sound_next h e)
  exact hfrom _ ⟨fun _ => rfl, fun r hr => by cases hr⟩

/-- A disk that is reused as pristine has the recorded bytes. -/
theorem reused_pristine {c : Call} {s : Store} {d : Bytes} (hpristine : c.pristine = true)
    (h : s.output = some d) (hrun : (run (build toml sha c) s).1 = none) :
    ∃ r, s.manifest = .whole r ∧ sha.hash d = r.rootfsSha256 := by
  unfold build at hrun
  split at hrun
  · cases hrun
  split at hrun
  · cases hrun
  · cases hrun
  simp only [run, h] at hrun
  unfold reuse at hrun
  split at hrun
  · cases hrun
  · cases hrun
  · rename_i r hmanifest
    split at hrun
    · split at hrun
      · cases hrun
      · rename_i hsame
        have heq := Decidable.byContradiction fun hne => hsame ⟨hpristine, hne⟩
        exact ⟨r, hmanifest, heq.symm⟩
    · cases hrun

variable (toml sha)

/-- What a call does to a store at most: a disk that is there stays as it is to
every later stop and to the end, a disk that appears does so behind its checks,
and a disk that is reused as pristine has the bytes that were linked. -/
structure Kept (c : Call) (s : Store) : Prop where
  unchanged : ∀ m n d, m ≤ n → (stopped m (build toml sha c) s).output = some d →
    (stopped n (build toml sha c) s).output = some d
  returned : ∀ m d, (stopped m (build toml sha c) s).output = some d →
    (run (build toml sha c) s).2.output = some d
  appeared : s.output = none → ∀ n d, (stopped n (build toml sha c) s).output = some d →
    ∃ log, (stopped n (build toml sha c) s).log = some log ∧ passed log = true ∧ c.fsck d = true
  pristine : c.pristine = true → ∀ d, s.output = some d → (run (build toml sha c) s).1 = none →
    ∃ r built, s.manifest = .whole r ∧ s.constructed = some built ∧
      r.rootfsSha256 = sha.hash built.disk ∧ sha.hash d = r.rootfsSha256

/-- After every history, whatever the call. -/
theorem disks_kept (events : List Event) (c : Call) : Kept toml sha c (after toml sha events) where
  unchanged m n d hmn hm := stopped_keeps (build_keeps toml sha c d) hmn hm
  returned m d hm := by
    obtain ⟨n, hn⟩ := stopped_eq_run (build toml sha c) (after toml sha events)
    rw [← hn (max m n) (Nat.le_max_right m n)]
    exact stopped_keeps (build_keeps toml sha c d) (Nat.le_max_left m n) hm
  appeared hnone n d hd := (build_checked c (sound_after events) hnone n).behind d hd
  pristine hpristine d hd hrun := by
    obtain ⟨r, hmanifest, heq⟩ := reused_pristine hpristine hd hrun
    obtain ⟨built, hbuilt, hrecorded⟩ := (sound_after events).recorded r hmanifest
    exact ⟨r, built, hmanifest, hbuilt, hrecorded, heq⟩

/-! ## A disk that is built and reused -/

def alpinePreset : Value :=
  .table [(text "target", .table [(text "arch", .string (text "riscv64"))]),
    (text "rootfs", .table [(text "type", .string (text "alpine")),
      (text "image", .string seedImage), (text "size_mib", .integer 512)])]

def alpineCall : Call where
  tree := [(rootfsDistro, .dir), ([text "configs", text "qemu-rv64-alpine.toml"], .file []),
    (script "build-distro.py", .file [])]
  preset := [text "configs", text "qemu-rv64-alpine.toml"]
  output := [text "release-rootfs", text "rootfs.ext4"]
  pristine := true
  missing := none
  kernel := some (ascii "kernel")
  firmware := some (ascii "firmware")
  fetch reference := .ok ⟨reference, [], [], []⟩
  disk := some (ascii "blank")
  console := ascii "boot\r\nRAPT_PROVISION_PASS\r\n"
  provisioned := ascii "disk"
  exited := true
  fsck _ := true
  inventory _ := some (text "busybox\nopenssh\n")
  linkable := true
  cut := 3

def plainSha : Digest Bytes := .verbatim _ Digest.bytes_injective

/-- Stopped after the link, the disk is there without its record. -/
example : (after (fun _ => some alpinePreset) plainSha [.call alpineCall 4]).output =
    some (ascii "disk") := by
  decide +kernel

example : (run (build (fun _ => some alpinePreset) plainSha alpineCall)
    (after (fun _ => some alpinePreset) plainSha [.call alpineCall 6])).1.isNone = true := by
  decide +kernel

/-- It is no longer reused as pristine when its guest has written to it. -/
example : (run (build (fun _ => some alpinePreset) plainSha alpineCall)
    (after (fun _ => some alpinePreset) plainSha
      [.call alpineCall 6, .guest (ascii "used")])).1.isSome = true := by
  decide +kernel

end LinuxBuild.Distro
