import Mathlib.Algebra.Group.Int.Defs
import LinuxBuild.Interaction
import LinuxBuild.Util

/-!
# `payload/syscall.c`

The payload as a program over the calls it makes, with any reply to each. The
wrappers keep their arguments; the constants they all pass are in the calls.
-/

namespace LinuxBuild

/-- An `unsigned long` taken as a `long`. -/
def Word.toLong (w : Word) (value : Nat) : Int :=
  if value < 2 ^ (w.bits - 1) then value else value - 2 ^ w.bits

namespace Payload

open Interaction

/-- One request to the kernel. Paths are relative to the working directory
(`AT_FDCWD`), and a socket address is always a `sockaddr_in`. -/
inductive Call where
  | getcwd (size : Nat)
  | ioctl (fd request : Nat) (name : Bytes)
  | unlinkat (path : Bytes) (flags : Nat)
  | mkdirat (path : Bytes) (mode : Nat)
  | mount (source target type : Bytes)
  | chdir (path : Bytes)
  | fchmod (fd mode : Nat)
  | openat (path : Bytes) (flags mode : Nat)
  | close (fd : Nat)
  | getdents64 (fd count : Nat)
  | read (fd count : Nat)
  | write (fd : Nat) (bytes : Bytes)
  | ppoll (fds : List (Nat × Nat)) (seconds : Option Nat)
  | nanosleep (seconds : Int)
  | sync
  | exit (code : Nat)
  | waitid (type id : Nat) (options : Nat)
  | reboot (command : Nat)
  | uname
  | sysinfo
  | socket (domain type protocol : Nat)
  | bind (fd : Nat) (address : SockaddrIn)
  | listen (fd backlog : Nat)
  | accept (fd : Nat)
  | connect (fd : Nat) (address : SockaddrIn)
  | sendto (fd : Nat) (bytes : Bytes) (address : SockaddrIn)
  | recvfrom (fd length : Nat)
  | setsockopt (fd level option value : Nat)
  | clone (flags : Nat)
  | execve (path : Bytes) (argv : List Bytes)
  | wait4 (processId options : Nat)
  deriving DecidableEq, Repr

/-- What a call returns, with what it stored where it was told to: bytes, or
the events of the descriptors polled. -/
structure Reply where
  value : Int
  data : Bytes := []
  revents : List Nat := []
  deriving DecidableEq, Repr

abbrev Sys := Prog Call Reply

namespace Reply

/-- The bytes a read of `value` bytes stored. -/
def bytes (r : Reply) : Bytes := r.data.take r.value.toNat

/-- The descriptor a call handed out. -/
def descriptor (r : Reply) : Option Nat := if r.value < 0 then none else some r.value.toNat

def u16 (r : Reply) (offset : Nat) : Nat :=
  (r.data.getD offset 0).toNat + 256 * (r.data.getD (offset + 1) 0).toNat

def u32 (r : Reply) (offset : Nat) : Nat := r.u16 offset + 65536 * r.u16 (offset + 2)

/-- An `unsigned long`. -/
def word (w : Word) (r : Reply) (offset : Nat) : Nat :=
  match w with
  | .rv32 => r.u32 offset
  | .rv64 => r.u32 offset + 2 ^ 32 * r.u32 (offset + 4)

/-- The C string in a buffer. -/
def text (r : Reply) (offset : Nat) : Bytes := cstr (r.data.drop offset)

end Reply

/-- No transfer moves more than it was asked to, and a read stores the bytes it
counts. -/
def Call.allows : Call → Reply → Bool
  | .read _ count, r | .recvfrom _ count, r => r.value ≤ count && r.value ≤ r.data.length
  | .write _ bytes, r => r.value ≤ bytes.length
  | _, _ => true

def Legal (t : Trace Call Reply) : Prop := ∀ e ∈ t, e.1.allows e.2 = true

instance (t : Trace Call Reply) : Decidable (Legal t) :=
  inferInstanceAs (Decidable (∀ e ∈ t, e.1.allows e.2 = true))

theorem legal_append {t u : Trace Call Reply} : Legal (t ++ u) ↔ Legal t ∧ Legal u := by
  simp only [Legal, List.mem_append, or_imp, forall_and]

theorem legal_cons {e : Call × Reply} {t : Trace Call Reply} :
    Legal (e :: t) ↔ e.1.allows e.2 = true ∧ Legal t := by
  simp only [Legal, List.mem_cons, forall_eq_or_imp]

/-- A kernel that answers from a list, and -1 from there on. -/
def scripted : List Reply → Call → Reply × List Reply
  | [], _ => (⟨-1, [], []⟩, [])
  | r :: rs, _ => (r, rs)

def oRdonly : Nat := 0
def oWronly : Nat := 1
def oCreat : Nat := 0o100
def oTrunc : Nat := 0o1000
def oDirectory : Nat := 0o200000

def sockStream : Nat := 1
def sockDgram : Nat := 2
def sockRaw : Nat := 3
def ipprotoIcmp : Nat := 1
def solSocket : Nat := 1
def soReuseaddr : Nat := 2
def pollin : Nat := 0x0001
def pollerr : Nat := 0x0008
def pollhup : Nat := 0x0010

def sysRead (fd count : Nat) : Sys Reply := .ask (.read fd count)

def sysWrite (fd : Nat) (bytes : Bytes) : Sys Int := do
  pure (← Prog.ask (.write fd bytes)).value

def sysOpenat (path : Bytes) (flags mode : Nat) : Sys (Option Nat) := do
  pure (← Prog.ask (.openat path flags mode)).descriptor

def sysClose (fd : Nat) : Sys Unit := do
  let _ ← Prog.ask (.close fd)

/-- The status of a call that stores nothing. -/
def status (c : Call) : Sys Int := do
  pure (← Prog.ask c).value

theorem runs_status {c : Call} {t : Trace Call Reply} {value : Int} :
    Runs (status c) t value ↔ ∃ r, t = [(c, r)] ∧ value = r.value :=
  runs_ask_pure

/-- A status, then the rest of the program. -/
theorem runs_status_bind {α : Type} {c : Call} {f : Int → Sys α} {t : Trace Call Reply} {a : α} :
    Runs (.bind (status c) f) t a ↔ ∃ r u, t = (c, r) :: u ∧ Runs (f r.value) u a := by
  rw [runs_bind]
  constructor
  · rintro ⟨u, v, value, rfl, hu, hv⟩
    obtain ⟨r, rfl, rfl⟩ := runs_status.mp hu
    exact ⟨r, v, rfl, hv⟩
  · rintro ⟨r, u, rfl, h⟩
    exact ⟨[(c, r)], u, r.value, rfl, runs_status.mpr ⟨r, rfl, rfl⟩, h⟩

def sysSocket (domain type protocol : Nat) : Sys (Option Nat) := do
  pure (← Prog.ask (.socket domain type protocol)).descriptor

def sysAccept (fd : Nat) : Sys (Option Nat) := do
  pure (← Prog.ask (.accept fd)).descriptor

/-- The raw wait status of a `waitid` record: `si_code` at word 2, the process
at word 3, `si_status` at word 5. -/
def waitStatus (info : Reply) : Option Nat :=
  match info.u32 8 with
  | 1 => some ((info.u32 20 &&& 255) <<< 8)
  | 2 => some (info.u32 20 &&& 127)
  | 3 => some (info.u32 20 &&& 127 ||| 128)
  | 4 | 5 => some ((info.u32 20 &&& 255) <<< 8 ||| 127)
  | 6 => some 0xffff
  | _ => none

/-- `sys_wait4` for one process: the result, and the status if one was stored.
RV32 has `waitid` (`P_PID`, with `WEXITED` added) instead. -/
def sysWait4 (w : Word) (processId options : Nat) : Sys (Int × Option Nat) :=
  match w with
  | .rv64 => do
    let r ← Prog.ask (.wait4 processId options)
    pure (r.value, if r.data = [] then none else some (r.u32 0))
  | .rv32 => do
    let r ← Prog.ask (.waitid 1 processId (options ||| 4))
    if r.value < 0 || r.u32 12 = 0 then pure (r.value, none)
    else
      match waitStatus r with
      | some s => pure (r.u32 12, some s)
      | none => pure (-22, none)

/-- `exit` does not come back; if it did, the payload would spin. -/
def sysExit {α : Type} (code : Nat) : Sys α := do
  let _ ← Prog.ask (.exit code)
  Prog.forever (.ret ())

end Payload

end LinuxBuild
