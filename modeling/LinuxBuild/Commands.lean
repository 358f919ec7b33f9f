import LinuxBuild.FetchRun
import LinuxBuild.Shell

/-!
# `payload/commands.c` and `payload/tiny_shell.c`

Every handler of the command table, the dispatcher and the shell loop. An
argument vector is the list of its strings, the command's name first.
-/

namespace LinuxBuild.Payload

open Interaction

def mountDefaults : Sys Unit := do
  let _ ← status (.mkdirat (ascii "/proc") 0o755)
  let _ ← status (.mkdirat (ascii "/sys") 0o755)
  let _ ← status (.mkdirat (ascii "/dev") 0o755)
  let _ ← status (.mount (ascii "proc") (ascii "/proc") (ascii "proc"))
  let _ ← status (.mount (ascii "sysfs") (ascii "/sys") (ascii "sysfs"))
  let _ ← status (.mount (ascii "devtmpfs") (ascii "/dev") (ascii "devtmpfs"))

def cmdHelp (_ : List Bytes) : Sys Unit := do
  putLine (ascii "filesystem: pwd cd ls cat cp touch mkdir rm rmdir mount sync")
  putLine (ascii "system:     uname uptime free sleep run clear reboot poweroff exit")
  putLine (ascii "network:    ifconfig ping nc fetch")

def cmdEcho (argv : List Bytes) : Sys Unit := do
  (match argv.tail with
    | [] => pure ()
    | text :: texts => do
      putsRaw text
      Prog.forEach texts fun text => do
        putsRaw (ascii " ")
        putsRaw text)
  putsRaw (ascii "\n")

def cmdPwd (_ : List Bytes) : Sys Unit := do
  let r ← Prog.ask (.getcwd 256)
  if r.value < 0 then printError (ascii "pwd") none else putLine (r.text 0)

def cmdCd (argv : List Bytes) : Sys Unit := do
  let path := argv.getD 1 (ascii "/")
  let result ← status (.chdir path)
  if result < 0 then printError (ascii "cd") (some path) else pure ()

/-! ## Files -/

/-- The directory entry at an offset of a `getdents64` buffer of `bytes` bytes. -/
def entryTurn (r : Reply) (offset : Nat) : Sys (Nat ⊕ Unit) :=
  if (offset : Int) < r.value then do
    putsRaw (r.text (offset + 19))
    (if r.data.getD (offset + 18) 0 = 4 then putsRaw (ascii "/") else pure ())
    putsRaw (ascii "  ")
    pure (.inl (offset + r.u16 (offset + 16)))
  else pure (.inr ())

def lsTurn (fd : Nat) (path : Bytes) (_ : Unit) : Sys (Unit ⊕ Unit) := do
  let r ← Prog.ask (.getdents64 fd 1024)
  if r.value ≤ 0 then do
    (if r.value < 0 then printError (ascii "ls") (some path) else pure ())
    pure (.inr ())
  else do
    let _ ← Prog.loop (entryTurn r) 0
    pure (.inl ())

def cmdLs (argv : List Bytes) : Sys Unit := do
  let path := argv.getD 1 (ascii ".")
  match ← sysOpenat path (oRdonly ||| oDirectory) 0 with
  | none => printError (ascii "ls") (some path)
  | some fd => do
    let _ ← Prog.loop (lsTurn fd path) ()
    putsRaw (ascii "\n")
    sysClose fd

/-- How a copy loop ends; what it reports then is printed behind the loop. -/
inductive CopyEnd where
  | eof
  | unreadable
  | unwritable
  deriving DecidableEq, Repr

/-- One round of the copy loops of `cmd_cat` and `cmd_cp`. -/
def copyTurn (source sink : Nat) (_ : Unit) : Sys (Unit ⊕ CopyEnd) := do
  let r ← sysRead source 512
  if r.value < 0 then pure (.inr .unreadable)
  else if r.value = 0 then pure (.inr .eof)
  else do
    let written ← writeAll sink r.bytes
    pure (if written < 0 then .inr .unwritable else .inl ())

def copyLoop (source sink : Nat) : Sys CopyEnd := .loop (copyTurn source sink) ()

theorem calls_copyLoop {P : Call → Prop} {source sink : Nat} (hread : ∀ n, P (.read source n))
    (hwrite : ∀ bytes, P (.write sink bytes)) : CallsOnly P (copyLoop source sink) := by
  refine .loop fun x => .bind (.ask (hread 512)) fun r => .ite .ret (.ite .ret ?_)
  exact .bind (calls_writeAll hwrite _) fun _ => .ret

def catFile (path : Bytes) : Sys Unit := do
  match ← sysOpenat path oRdonly 0 with
  | none => printError (ascii "cat") (some path)
  | some fd => do
    let ended ← copyLoop fd 1
    (if ended = .unreadable then printError (ascii "cat") (some path) else pure ())
    sysClose fd

def cmdCat (argv : List Bytes) : Sys Unit :=
  if argv.length < 2 then putLine (ascii "usage: cat PATH...")
  else Prog.forEach argv.tail catFile

/-- What `cmd_cp` reports of its loop. -/
def cpReport (sourcePath destPath : Bytes) : CopyEnd → Sys Unit
  | .eof => pure ()
  | .unreadable => printError (ascii "cp") (some sourcePath)
  | .unwritable => printError (ascii "cp") (some destPath)

/-- `cmd_cp` with both files open. -/
def cpOn (source destination : Nat) (sourcePath destPath : Bytes) : Sys Unit := do
  let ended ← copyLoop source destination
  cpReport sourcePath destPath ended
  sysClose destination
  sysClose source

def cmdCp (argv : List Bytes) : Sys Unit :=
  match argv with
  | [_, sourcePath, destPath] => do
    match ← sysOpenat sourcePath oRdonly 0 with
    | none => printError (ascii "cp") (some sourcePath)
    | some source => do
      match ← sysOpenat destPath (oWronly ||| oCreat ||| oTrunc) 0o644 with
      | none => do
        printError (ascii "cp") (some destPath)
        sysClose source
      | some destination => cpOn source destination sourcePath destPath
  | _ => putLine (ascii "usage: cp SOURCE DEST")

def touchFile (path : Bytes) : Sys Unit := do
  match ← sysOpenat path (oWronly ||| oCreat) 0o644 with
  | none => printError (ascii "touch") (some path)
  | some fd => sysClose fd

def cmdTouch (argv : List Bytes) : Sys Unit :=
  if argv.length < 2 then putLine (ascii "usage: touch PATH...")
  else Prog.forEach argv.tail touchFile

/-- A call on the one argument, reported when it fails or cannot be made. -/
def onArgument (name : Bytes) (argv : List Bytes) (c : Bytes → Call) : Sys Unit :=
  match argv with
  | [_, path] => do
    let result ← status (c path)
    if result < 0 then printError name (some path) else pure ()
  | _ => printError name argv[1]?

def cmdMkdir (argv : List Bytes) : Sys Unit :=
  onArgument (ascii "mkdir") argv fun path => .mkdirat path 0o755

def atRemovedir : Nat := 0x200

def cmdRemove (argv : List Bytes) : Sys Unit :=
  let name := argv.headD []
  onArgument name argv fun path => .unlinkat path (if name = ascii "rmdir" then atRemovedir else 0)

def cmdMount (argv : List Bytes) : Sys Unit :=
  match argv with
  | [_] => do
    mountDefaults
    putLine (ascii "mounted proc, sysfs and devtmpfs if available")
  | _ :: type :: target :: rest => do
    let result ← status (.mount (rest.headD type) target type)
    if result < 0 then printError (ascii "mount") (some target) else pure ()
  | _ => putLine (ascii "usage: mount TYPE TARGET [SOURCE]")

def cmdSync (_ : List Bytes) : Sys Unit := do
  let _ ← Prog.ask .sync

/-! ## System -/

/-- A field of `struct new_utsname`. -/
def utsField (r : Reply) (i : Nat) : Bytes := r.text (65 * i)

def cmdUname (argv : List Bytes) : Sys Unit := do
  let r ← Prog.ask .uname
  if r.value < 0 then printError (ascii "uname") none
  else
    match argv with
    | [_] => putLine (utsField r 0)
    | [_, option] =>
      if option = ascii "-a" then do
        Prog.forEach [0, 1, 2, 3] fun i => do
          putsRaw (utsField r i)
          putsRaw (ascii " ")
        putLine (utsField r 4)
      else putLine (ascii "usage: uname [-a]")
    | _ => putLine (ascii "usage: uname [-a]")

/-- The record of `sysinfo`, if the call succeeds. -/
def getSysinfo : Sys (Option Reply) := do
  let r ← Prog.ask .sysinfo
  if r.value < 0 then do
    printError (ascii "sysinfo") none
    pure none
  else pure (some r)

/-- The `i`-th `unsigned long` of `struct sysinfo`. -/
def sysinfoWord (w : Word) (r : Reply) (i : Nat) : Nat := r.word w (w.bits / 8 * i)

/-- `mem_unit`, behind ten longs, two shorts and two longs. -/
def memUnit (w : Word) (r : Reply) : Nat :=
  match w with
  | .rv32 => r.u32 52
  | .rv64 => r.u32 104

def cmdUptime (w : Word) (_ : List Bytes) : Sys Unit := do
  match ← getSysinfo with
  | none => pure ()
  | some r => do
    let uptime := sysinfoWord w r 0
    putsRaw (ascii "up ")
    printUnsigned (uptime / 86400)
    putsRaw (ascii "d ")
    printUnsigned (uptime % 86400 / 3600)
    putsRaw (ascii "h ")
    printUnsigned (uptime % 3600 / 60)
    putsRaw (ascii "m ")
    printUnsigned (uptime % 60)
    putLine (ascii "s")

def printMemoryLine (label : Bytes) (value unit : Nat) : Sys Unit := do
  putsRaw label
  printU64 (value * unit % 2 ^ 64 / 1024)
  putLine (ascii " KiB")

def cmdFree (w : Word) (_ : List Bytes) : Sys Unit := do
  match ← getSysinfo with
  | none => pure ()
  | some r => do
    printMemoryLine (ascii "total:  ") (sysinfoWord w r 4) (memUnit w r)
    printMemoryLine (ascii "free:   ") (sysinfoWord w r 5) (memUnit w r)
    printMemoryLine (ascii "shared: ") (sysinfoWord w r 6) (memUnit w r)
    printMemoryLine (ascii "buffers:") (sysinfoWord w r 7) (memUnit w r)

def cmdSleep (w : Word) (argv : List Bytes) : Sys Unit :=
  match argv with
  | [_, text] =>
    match parseUnsigned w text with
    | none => putLine (ascii "usage: sleep SECONDS")
    | some seconds => do
      let result ← status (.nanosleep (w.toLong seconds))
      if result < 0 then printError (ascii "sleep") none else pure ()
  | _ => putLine (ascii "usage: sleep SECONDS")

def cmdClear (_ : List Bytes) : Sys Unit := putsRaw (ascii "\x1b[2J\x1b[H")

def rebootRestart : Nat := 0x01234567
def rebootPowerOff : Nat := 0x4321fedc

/-- `cmd_reboot` and `cmd_poweroff`. -/
def restart (name : String) (command : Nat) : Sys Unit := do
  let _ ← status (.reboot command)
  printError (ascii name) none

def cmdReboot (_ : List Bytes) : Sys Unit := restart "reboot" rebootRestart

def cmdPoweroff (_ : List Bytes) : Sys Unit := restart "poweroff" rebootPowerOff

def cmdExit (_ : List Bytes) : Sys Unit :=
  putLine (ascii "PID 1 cannot exit cleanly; use poweroff or reboot")

/-! ## Dispatch -/

def commands (w : Word) : List (String × (List Bytes → Sys Unit)) :=
  [("help", cmdHelp), ("echo", cmdEcho), ("pwd", cmdPwd), ("cd", cmdCd), ("ls", cmdLs),
    ("cat", cmdCat), ("cp", cmdCp), ("touch", cmdTouch), ("mkdir", cmdMkdir), ("rm", cmdRemove),
    ("rmdir", cmdRemove), ("mount", cmdMount), ("sync", cmdSync), ("uname", cmdUname),
    ("uptime", cmdUptime w), ("free", cmdFree w), ("sleep", cmdSleep w),
    ("ifconfig", cmdIfconfig), ("ping", cmdPing), ("nc", cmdNc w), ("fetch", cmdFetch w),
    ("run", cmdRun w), ("clear", cmdClear), ("reboot", cmdReboot), ("poweroff", cmdPoweroff),
    ("exit", cmdExit)]

def runCommand (w : Word) (argv : List Bytes) : Sys Unit :=
  match argv with
  | [] => pure ()
  | name :: _ =>
    match (commands w).find? fun command => name = ascii command.1 with
    | some command => command.2 argv
    | none =>
      if '/'.toUInt8 ∈ name then runProgram w argv
      else do
        putsRaw name
        putLine (ascii ": unknown command")

/-- One turn of the `for (;;)` of `_start`. `split_args` stops at the first
NUL of the line. -/
def shellTurn (w : Word) : Sys Unit := do
  putsRaw (ascii "tinysh# ")
  match ← readLine lineCapacity with
  | none => putsRaw (ascii "\n")
  | some line => runCommand w (argvOf (cstr line) argvCapacity)

/-- What `_start` does before its first prompt. -/
def startUp : Sys Unit := do
  mountDefaults
  putLine (ascii "tinysh: initramfs shell ready. Type 'help'.")

def start {α : Type} (w : Word) : Sys α := do
  startUp
  Prog.forever (shellTurn w)

end LinuxBuild.Payload
