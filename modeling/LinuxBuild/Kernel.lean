import Mathlib.Algebra.Group.Nat.Defs
import LinuxBuild.Bytes

/-!
# The kernel as the payload sees it

`payload/syscall.c` hands every request to the kernel. Here the kernel is a
state and an oracle: `answers n` decides the outcome of the `n`-th call, within
what the call's contract allows. A negative answer is an error; any other
answer is a success, and bounds the bytes a read or a write transfers.
-/

namespace LinuxBuild

/-- What an open descriptor refers to. -/
inductive Object where
  | console
  | stream
  | file (inode pos : Nat)
  deriving DecidableEq, Repr

/-- Directory entries over inodes, so that two names can be one file. -/
structure Files where
  entry : Bytes → Option Nat
  data : Nat → Bytes
  unused : Nat
  inUse : ∀ path i, entry path = some i → i < unused

/-- No file offset passes `LLONG_MAX`. -/
def maxFileSize : Nat := 2 ^ 63 - 1

namespace Files

def empty : Files where
  entry _ := none
  data _ := []
  unused := 0
  inUse _ _ h := by cases h

def read (fs : Files) (path : Bytes) : Option Bytes := (fs.entry path).map fs.data

def setData (fs : Files) (i : Nat) (bytes : Bytes) : Files :=
  { fs with data := fun j => if j = i then bytes else fs.data j }

def link (fs : Files) (path : Bytes) : Files where
  entry p := if p = path then some fs.unused else fs.entry p
  data j := if j = fs.unused then [] else fs.data j
  unused := fs.unused + 1
  inUse p i h := by
    split at h
    · cases h; omega
    · have := fs.inUse p i h; omega

/-- Open for writing with `O_CREAT | O_TRUNC`: the inode, now empty. -/
def create (fs : Files) (path : Bytes) : Nat × Files :=
  match fs.entry path with
  | some i => (i, fs.setData i [])
  | none => (fs.unused, fs.link path)

def unlink (fs : Files) (path : Bytes) : Files where
  entry p := if p = path then none else fs.entry p
  data := fs.data
  unused := fs.unused
  inUse p i h := by
    split at h
    · cases h
    · exact fs.inUse p i h

/-- Bytes written at an offset; a gap before it reads as zeros. -/
def writeAt (fs : Files) (i pos : Nat) (bytes : Bytes) : Files :=
  fs.setData i ((fs.data i).take pos ++ List.replicate (pos - (fs.data i).length) 0 ++ bytes ++
    (fs.data i).drop (pos + bytes.length))

@[simp] theorem setData_entry (fs : Files) (i : Nat) (bytes : Bytes) :
    (fs.setData i bytes).entry = fs.entry := rfl

@[simp] theorem setData_data (fs : Files) (i : Nat) (bytes : Bytes) :
    (fs.setData i bytes).data i = bytes := by simp [setData]

@[simp] theorem unlink_entry (fs : Files) (path : Bytes) : (fs.unlink path).entry path = none := by
  simp [unlink]

theorem create_entry (fs : Files) (path : Bytes) :
    (fs.create path).2.entry path = some (fs.create path).1 := by
  unfold create
  split
  · assumption
  · simp [link]

theorem create_data (fs : Files) (path : Bytes) :
    (fs.create path).2.data (fs.create path).1 = [] := by
  unfold create
  split
  · simp
  · simp [link]

/-- Writing at the end of a file appends. -/
theorem writeAt_end (fs : Files) (i : Nat) (bytes : Bytes) :
    fs.writeAt i (fs.data i).length bytes = fs.setData i (fs.data i ++ bytes) := by
  simp [writeAt, List.drop_eq_nil_of_le]

end Files

/-- `struct sockaddr_in`, without its padding. -/
structure SockaddrIn where
  family : Nat
  port : Nat
  address : Nat
  deriving DecidableEq, Repr

/-- What happened to descriptors and names. `bad` is a call on a descriptor
that is not open. -/
inductive Event where
  | opened (path : Bytes) (fd inode : Nat)
  | socket (fd : Nat)
  | connected (fd : Nat) (peer : SockaddrIn)
  | closed (fd : Nat)
  | unlinked (path : Bytes)
  | bad (fd : Nat)
  deriving DecidableEq, Repr

/-- `incoming` is what the peer of a connected socket will still send before
it closes, `sent` what it was sent. `console` is the text handed to descriptor
1: `puts_raw` drops the result of its write, so nothing else depends on what
the console makes of it. -/
structure Kernel where
  answers : Nat → Int
  asked : Nat
  fds : List (Option Object)
  incoming : Bytes
  sent : Bytes
  files : Files
  console : Bytes
  log : List Event

/-- The lowest free descriptor is taken. -/
def allocate (o : Object) : List (Option Object) → Nat × List (Option Object)
  | [] => (0, [some o])
  | none :: rest => (0, some o :: rest)
  | some x :: rest => ((allocate o rest).1 + 1, some x :: (allocate o rest).2)

namespace Kernel

def answer (k : Kernel) : Int := k.answers k.asked

def tick (k : Kernel) : Kernel := { k with asked := k.asked + 1 }

def object (k : Kernel) (fd : Nat) : Option Object := k.fds[fd]?.join

def setObject (k : Kernel) (fd : Nat) (o : Object) : Kernel :=
  { k with fds := k.fds.set fd (some o) }

def record (k : Kernel) (e : Event) : Kernel := { k with log := k.log ++ [e] }

/-- No write of a nonempty buffer is answered with zero. -/
def WritesAdvance (k : Kernel) : Prop := ∀ n, k.answers n ≠ 0

/-- Every call succeeds and moves at least a byte. -/
def Willing (k : Kernel) : Prop := ∀ n, 0 < k.answers n

/-- What init starts with: three descriptors on the console, and no file. -/
def boot (answers : Nat → Int) (incoming : Bytes) : Kernel where
  answers := answers
  asked := 0
  fds := [some .console, some .console, some .console]
  incoming := incoming
  sent := []
  files := Files.empty
  console := []
  log := []

theorem Willing.writesAdvance {k : Kernel} (h : k.Willing) : k.WritesAdvance :=
  fun n => Int.ne_of_gt (h n)

@[simp] theorem tick_answers (k : Kernel) : k.tick.answers = k.answers := rfl
@[simp] theorem tick_fds (k : Kernel) : k.tick.fds = k.fds := rfl
@[simp] theorem tick_incoming (k : Kernel) : k.tick.incoming = k.incoming := rfl
@[simp] theorem tick_files (k : Kernel) : k.tick.files = k.files := rfl
@[simp] theorem tick_console (k : Kernel) : k.tick.console = k.console := rfl
@[simp] theorem tick_log (k : Kernel) : k.tick.log = k.log := rfl
@[simp] theorem tick_object (k : Kernel) (fd : Nat) : k.tick.object fd = k.object fd := rfl

end Kernel

/-- Bytes a transfer of at most `count` moves when `available` are there: at
least one, if both allow it. -/
def transfer (answer : Int) (count available : Nat) : Nat :=
  min (max 1 answer.toNat) (min count available)

def sysSocket (k : Kernel) : Option Nat × Kernel :=
  if k.answer < 0 then (none, k.tick)
  else
    let fd := (allocate .stream k.fds).1
    (some fd, { k.tick with fds := (allocate .stream k.fds).2 }.record (.socket fd))

def sysConnect (fd : Nat) (peer : SockaddrIn) (k : Kernel) : Bool × Kernel :=
  match k.object fd with
  | none => (false, k.tick.record (.bad fd))
  | some _ => if k.answer < 0 then (false, k.tick) else (true, k.tick.record (.connected fd peer))

/-- `sys_openat` with `O_WRONLY | O_CREAT | O_TRUNC`. A path names a regular file or
nothing here; in `FetchWorld` it may name a device. -/
def sysCreate (path : Bytes) (k : Kernel) : Option Nat × Kernel :=
  if k.answer < 0 then (none, k.tick)
  else
    let (i, files) := k.files.create path
    let fd := (allocate (.file i 0) k.fds).1
    (some fd, { k.tick with fds := (allocate (.file i 0) k.fds).2, files := files }.record
      (.opened path fd i))

def sysFchmod (fd : Nat) (k : Kernel) : Bool × Kernel :=
  match k.object fd with
  | none => (false, k.tick.record (.bad fd))
  | some _ => (decide (0 ≤ k.answer), k.tick)

def sysClose (fd : Nat) (k : Kernel) : Kernel :=
  match k.object fd with
  | none => k.tick.record (.bad fd)
  | some _ => { k.tick with fds := k.fds.set fd none }.record (.closed fd)

/-- Unlinking is taken to succeed. -/
def sysUnlinkat (path : Bytes) (k : Kernel) : Kernel :=
  { k.tick with files := k.files.unlink path }.record (.unlinked path)

/-- A read of at most `count` bytes: the returned count and what it stored. A
stream is at its end when the peer has nothing more to send. -/
def sysRead (fd count : Nat) (k : Kernel) : Int × Bytes × Kernel :=
  if k.answer < 0 then (k.answer, [], k.tick)
  else
    match k.object fd with
    | some .stream =>
      let n := transfer k.answer count k.incoming.length
      (n, k.incoming.take n, { k.tick with incoming := k.incoming.drop n })
    | some (.file i pos) =>
      let n := transfer k.answer count ((k.files.data i).length - pos)
      (n, ((k.files.data i).drop pos).take n, k.tick.setObject fd (.file i (pos + n)))
    | some .console => (0, [], k.tick)
    | none => (-9, [], k.tick.record (.bad fd))

/-- A write: the returned count, at most the bytes given. A file takes no byte
past `maxFileSize`. -/
def sysWrite (fd : Nat) (bytes : Bytes) (k : Kernel) : Int × Kernel :=
  if k.answer < 0 then (k.answer, k.tick)
  else
    let n := min k.answer.toNat bytes.length
    match k.object fd with
    | some .stream => (n, { k.tick with sent := k.sent ++ bytes.take n })
    | some .console => (n, { k.tick with console := k.console ++ bytes.take n })
    | some (.file i pos) =>
      let m := min n (maxFileSize - pos)
      if m = 0 ∧ n ≠ 0 then (-27, k.tick)
      else
        (m, { k.tick with files := k.files.writeAt i pos (bytes.take m) }.setObject fd
          (.file i (pos + m)))
    | none => (-9, k.tick.record (.bad fd))

theorem transfer_le (answer : Int) (count available : Nat) :
    transfer answer count available ≤ available := by
  unfold transfer; omega

theorem transfer_le_count (answer : Int) (count available : Nat) :
    transfer answer count available ≤ count := by
  unfold transfer; omega

theorem transfer_pos (answer : Int) {count available : Nat} (hc : 0 < count) (ha : 0 < available) :
    0 < transfer answer count available := by
  unfold transfer; omega

/-- The new descriptor was free and is the only one that changes. -/
theorem allocate_spec (o : Object) (fds : List (Option Object)) :
    (allocate o fds).2[(allocate o fds).1]? = some (some o) ∧
    fds[(allocate o fds).1]?.join = none ∧
    ∀ fd, fd ≠ (allocate o fds).1 → (allocate o fds).2[fd]?.join = fds[fd]?.join := by
  induction fds with
  | nil =>
    refine ⟨rfl, rfl, ?_⟩
    intro fd hfd
    cases fd with
    | zero => simp [allocate] at hfd
    | succ fd => simp [allocate]
  | cons x rest ih =>
    cases x with
    | none =>
      refine ⟨rfl, rfl, ?_⟩
      intro fd hfd
      cases fd with
      | zero => simp [allocate] at hfd
      | succ fd => simp [allocate]
    | some x =>
      simp only [allocate, List.getElem?_cons_succ]
      refine ⟨ih.1, ih.2.1, ?_⟩
      intro fd hfd
      cases fd with
      | zero => rfl
      | succ fd =>
        simp only [List.getElem?_cons_succ]
        exact ih.2.2 fd (by omega)

end LinuxBuild
