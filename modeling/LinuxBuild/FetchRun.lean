import LinuxBuild.Net

/-!
# `payload/transfer.c`: fetch and run

The commands as programs; what they make of a header block is in `Transfer`.
-/

namespace LinuxBuild.Payload

open Interaction

/-! ## fetch -/

def connectTcp (host : Bytes) (port : Nat) : Sys (Option Nat) :=
  match parseIpv4 host with
  | none => do
    putLine (ascii "fetch: numeric IPv4 required")
    pure none
  | some address => do
    match ← sysSocket afInet sockStream 0 with
    | none => do
      printError (ascii "fetch") (some (ascii "connect"))
      pure none
    | some fd => do
      let connected ← status (.connect fd ⟨afInet, hostToNetwork16 (port % 2 ^ 16), address⟩)
      if connected < 0 then do
        sysClose fd
        printError (ascii "fetch") (some (ascii "connect"))
        pure none
      else pure (some fd)

/-- Writes the texts in turn and stops at the first that fails. -/
def writeEach (fd : Nat) : List Bytes → Sys Bool
  | [] => pure true
  | text :: texts => do
    let result ← writeAll fd text
    if result < 0 then pure false else writeEach fd texts

def requestTexts (host path : Bytes) : List Bytes :=
  [ascii "GET ", path, ascii " HTTP/1.0\r\nHost: ", host, ascii "\r\nConnection: close\r\n\r\n"]

/-- `true` is the result 0. -/
def sendRequest (fd : Nat) (host path : Bytes) : Sys Bool := writeEach fd (requestTexts host path)

/-- One round of `read_response_header`, with the bytes stored so far; the
result is the block, if it is complete and has status 200. -/
def headerTurn (fd capacity : Nat) (header : Bytes) : Sys (Bytes ⊕ Option Bytes) :=
  if header.length + 1 < capacity then do
    let r ← sysRead fd 1
    if r.value ≤ 0 then pure (.inr none)
    else
      let header := header ++ [r.data.headD 0]
      if crlfCrlf.isSuffixOf header then
        pure (.inr (if httpStatusOk header then some header else none))
      else pure (.inl header)
  else pure (.inr none)

def readResponseHeader (fd capacity : Nat) : Sys (Option Bytes) := .loop (headerTurn fd capacity) []

/-- One round of the copy loop of `cmd_fetch`: whether it failed, and the
bytes counted. -/
def bodyTurn (socket output total : Nat) : Sys (Nat ⊕ Bool × Nat) := do
  let r ← sysRead socket 1024
  if r.value = 0 then pure (.inr (false, total))
  else if r.value < 0 then pure (.inr (true, total))
  else do
    let written ← writeAll output r.bytes
    if written < 0 then pure (.inr (true, total))
    else pure (.inl ((total + r.value.toNat) % 2 ^ 64))

def copyBody (socket output : Nat) : Sys (Bool × Nat) := .loop (bodyTurn socket output) 0

/-- `cmd_fetch` from the copy loop on. -/
def fetchBody (expected : Option Nat) (socket output : Nat) (path : Bytes) : Sys Unit := do
  let (failed, total) ← copyBody socket output
  sysClose output
  sysClose socket
  if failed || expected.any (total ≠ ·) then do
    let _ ← status (.unlinkat path 0)
    printError (ascii "fetch") (some path)
  else do
    putsRaw (ascii "saved ")
    printU64 total
    putsRaw (ascii " bytes to ")
    putLine path

/-- `cmd_fetch` from the opening of the output file on. -/
def fetchInto (expected : Option Nat) (socket : Nat) (path : Bytes) : Sys Unit := do
  match ← sysOpenat path (oWronly ||| oCreat ||| oTrunc) 0o755 with
  | none => do
    printError (ascii "fetch") (some path)
    sysClose socket
  | some output => do
    let changed ← status (.fchmod output 0o755)
    if changed < 0 then do
      printError (ascii "fetch") (some path)
      sysClose output
      let _ ← status (.unlinkat path 0)
      sysClose socket
    else fetchBody expected socket output path

/-- `cmd_fetch` from the request on. -/
def fetchFrom (w : Word) (socket : Nat) (host remote path : Bytes) : Sys Unit := do
  let failed := do
    putLine (ascii "fetch: HTTP request failed or non-200 response")
    sysClose socket
  let sent ← sendRequest socket host remote
  if !sent then failed
  else do
    match ← readResponseHeader socket 1024 with
    | none => failed
    | some header =>
      match contentLength w header with
      | .invalid => do
        putLine (ascii "fetch: invalid Content-Length")
        sysClose socket
      | .absent => fetchInto none socket path
      | .length value => fetchInto (some value) socket path

def fetchUsage : Sys Unit :=
  putLine (ascii "usage: fetch IPv4 PORT /REMOTE_PATH LOCAL_PATH")

def cmdFetch (w : Word) (argv : List Bytes) : Sys Unit :=
  match argv with
  | [_, host, portText, remote, path] =>
    match portOf w portText with
    | none => fetchUsage
    | some port =>
      if remote.head? ≠ some '/'.toUInt8 then fetchUsage
      else do
        match ← connectTcp host port with
        | none => pure ()
        | some socket => fetchFrom w socket host remote path
  | _ => fetchUsage

/-! ## What is called -/

section

variable {P : Call → Prop}

theorem calls_writeEach {fd : Nat} (h : ∀ bytes, P (.write fd bytes)) (texts : List Bytes) :
    CallsOnly P (writeEach fd texts) := by
  induction texts with
  | nil => exact .ret
  | cons text texts ih => exact .bind (calls_writeAll h _) fun _ => .ite .ret ih

theorem calls_readResponseHeader {fd : Nat} (h : ∀ n, P (.read fd n)) (capacity : Nat) :
    CallsOnly P (readResponseHeader fd capacity) := by
  refine .loop fun header => ?_
  rw [headerTurn]
  refine .ite (.bind (.ask (h 1)) fun r => .ite .ret ?_) .ret
  exact .ite .ret .ret

theorem calls_copyBody {socket output : Nat} (hread : ∀ n, P (.read socket n))
    (hwrite : ∀ bytes, P (.write output bytes)) : CallsOnly P (copyBody socket output) := by
  refine .loop fun total => .bind (.ask (hread 1024)) fun r => .ite .ret (.ite .ret ?_)
  exact .bind (calls_writeAll hwrite _) fun _ => .ite .ret .ret

end

/-! ## run -/

def sigchld : Nat := 17

/-- What the forked child does. -/
def runChild {α : Type} (path : Bytes) (argv : List Bytes) : Sys α := do
  let _ ← status (.execve path argv)
  printError (ascii "run") (some path)
  sysExit 127

def showStatus (waitStatus : Nat) : Sys Unit :=
  if waitStatus &&& 0x7f = 0 then do
    putsRaw (ascii "exit ")
    printUnsigned (waitStatus >>> 8 &&& 0xff)
    putsRaw (ascii "\n")
  else do
    putsRaw (ascii "signal ")
    printUnsigned (waitStatus &&& 0x7f)
    putsRaw (ascii "\n")

def runProgram (w : Word) (argv : List Bytes) : Sys Unit := do
  let r ← Prog.ask (.clone sigchld)
  if r.value < 0 then printError (ascii "run") (some (ascii "clone"))
  else if r.value = 0 then runChild (argv.headD []) argv
  else do
    let (result, waitStatus) ← sysWait4 w r.value.toNat 0
    if result < 0 then printError (ascii "run") (some (ascii "wait4"))
    else showStatus (waitStatus.getD 0)

def cmdRun (w : Word) (argv : List Bytes) : Sys Unit :=
  match argv with
  | _ :: path :: rest => runProgram w (path :: rest)
  | _ => putLine (ascii "usage: run PATH [ARG...]")

end LinuxBuild.Payload
