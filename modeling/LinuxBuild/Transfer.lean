import LinuxBuild.Util

/-!
# `payload/transfer.c`: the fetch command

A header block is the list of bytes before the NUL that `read_response_header`
stores after it; embedded NULs are bytes of the list.
-/

namespace LinuxBuild

/-- `http_status_ok`: the cursor walks to the first space or NUL. -/
def httpStatusOk (header : Bytes) : Bool :=
  (ascii "HTTP/").isPrefixOf header &&
    (ascii " 200 ").isPrefixOf (header.dropWhile fun c => c ≠ 0 && c ≠ ' '.toUInt8)

def asciiLower (value : UInt8) : UInt8 :=
  if 'A'.toUInt8 ≤ value && value ≤ 'Z'.toUInt8 then value + 32 else value

def headerNameMatches : Bytes → Bytes → Bool
  | _, [] => true
  | [], _ :: _ => false
  | c :: line, n :: name => asciiLower c == n && headerNameMatches line name

def contentLengthName : Bytes := ascii "content-length:"

/-- The results 0, -1 and 1 of `content_length`. -/
inductive ContentLength where
  | absent
  | invalid
  | length (value : Nat)
  deriving DecidableEq, Repr

/-- The digit loop of `content_length` and the checks after it. -/
def contentValue (w : Word) (value : Nat) (hasDigit : Bool) : Bytes → ContentLength
  | [] => .invalid
  | c :: cursor =>
    if isDigit c then
      let next := (value * 10 + digit c) % 2 ^ w.bits
      if next < value then .invalid else contentValue w next true cursor
    else if !hasDigit || (c ≠ cr && c ≠ lf) then .invalid
    else .length value

def isBlank (c : UInt8) : Bool := c = ' '.toUInt8 || c = '\t'.toUInt8

/-- The line loop of `content_length`, one byte a step; the flag says that the
byte is the first of a line. A NUL ends both source loops. -/
def contentLengthFrom (w : Word) (atStart : Bool) : Bytes → ContentLength
  | [] => .absent
  | c :: rest =>
    if c = 0 then .absent
    else if atStart && headerNameMatches (c :: rest) contentLengthName then
      contentValue w 0 false (((c :: rest).drop 15).dropWhile isBlank)
    else contentLengthFrom w (c == lf) rest

def contentLength (w : Word) (header : Bytes) : ContentLength := contentLengthFrom w true header

def afInet : Nat := 2

def connectTcp (host : Bytes) (port : Nat) (k : Kernel) : Option Nat × Kernel :=
  match parseIpv4 host with
  | none => (none, putLine (ascii "fetch: numeric IPv4 required") k)
  | some address =>
    match sysSocket k with
    | (none, k) => (none, printError (ascii "fetch") (ascii "connect") k)
    | (some fd, k) =>
      match sysConnect fd ⟨afInet, hostToNetwork16 port, address⟩ k with
      | (true, k) => (some fd, k)
      | (false, k) => (none, printError (ascii "fetch") (ascii "connect") (sysClose fd k))

/-- Writes the texts in turn and stops at the first that fails. -/
def writeEach (fd : Nat) : List Bytes → Kernel → Bool × Kernel
  | [], k => (true, k)
  | text :: texts, k =>
    match writeAll fd text k with
    | (result, k) => if result < 0 then (false, k) else writeEach fd texts k

def sendRequest (fd : Nat) (host path : Bytes) (k : Kernel) : Bool × Kernel :=
  writeEach fd [ascii "GET ", path, ascii " HTTP/1.0\r\nHost: ", host,
    ascii "\r\nConnection: close\r\n\r\n"] k

def crlfCrlf : Bytes := [cr, lf, cr, lf]

/-- `read_response_header` with `room` bytes of `header` left besides the NUL:
whether the block is complete and has status 200, and the bytes stored. -/
def readHeaderFrom (fd : Nat) : Nat → Bytes → Kernel → Bool × Bytes × Kernel
  | 0, header, k => (false, header, k)
  | room + 1, header, k =>
    match sysRead fd 1 k with
    | (count, bytes, k) =>
      if count ≤ 0 then (false, header, k)
      else
        let header := header ++ bytes
        if crlfCrlf.isSuffixOf header then (httpStatusOk header, header, k)
        else readHeaderFrom fd room header k

def readResponseHeader (fd capacity : Nat) (k : Kernel) : Bool × Bytes × Kernel :=
  readHeaderFrom fd (capacity - 1) [] k

/-- The copy loop of `cmd_fetch`: whether it failed, and the bytes counted. -/
def copyBody : Nat → Nat → Nat → Nat → Kernel → Bool × Nat × Kernel
  | 0, _, _, total, k => (true, total, k)
  | fuel + 1, socket, output, total, k =>
    match sysRead socket 1024 k with
    | (count, buffer, k) =>
      if count = 0 then (false, total, k)
      else if count < 0 then (true, total, k)
      else
        match writeAll output buffer k with
        | (result, k) =>
          if result < 0 then (true, total, k)
          else copyBody fuel socket output ((total + count.toNat) % 2 ^ 64) k

/-- `cmd_fetch` from the copy loop on. -/
def fetchBody (expected : Option Nat) (socket output : Nat) (path : Bytes) (k : Kernel) : Kernel :=
  match copyBody (k.incoming.length + 1) socket output 0 k with
  | (failed, total, k) =>
    let failed := failed || expected.any (total ≠ ·)
    let k := sysClose socket (sysClose output k)
    if failed then printError (ascii "fetch") path (sysUnlinkat path k)
    else putLine path (putsRaw (ascii " bytes to ") (printU64 total (putsRaw (ascii "saved ") k)))

/-- `cmd_fetch` from the opening of the output file on. -/
def fetchInto (expected : Option Nat) (socket : Nat) (path : Bytes) (k : Kernel) : Kernel :=
  match sysCreate path k with
  | (none, k) => sysClose socket (printError (ascii "fetch") path k)
  | (some output, k) =>
    match sysFchmod output k with
    | (false, k) =>
      sysClose socket (sysUnlinkat path (sysClose output (printError (ascii "fetch") path k)))
    | (true, k) => fetchBody expected socket output path k

/-- `cmd_fetch` from the request on. -/
def fetchFrom (w : Word) (socket : Nat) (host remote path : Bytes) (k : Kernel) : Kernel :=
  let failed := fun k => sysClose socket (putLine
    (ascii "fetch: HTTP request failed or non-200 response") k)
  match sendRequest socket host remote k with
  | (false, k) => failed k
  | (true, k) =>
    match readResponseHeader socket 1024 k with
    | (false, _, k) => failed k
    | (true, header, k) =>
      match contentLength w header with
      | .invalid => sysClose socket (putLine (ascii "fetch: invalid Content-Length") k)
      | .absent => fetchInto none socket path k
      | .length value => fetchInto (some value) socket path k

def fetchUsage (k : Kernel) : Kernel :=
  putLine (ascii "usage: fetch IPv4 PORT /REMOTE_PATH LOCAL_PATH") k

def cmdFetch (w : Word) (argv : List Bytes) (k : Kernel) : Kernel :=
  match argv with
  | [_, host, portText, remote, path] =>
    match parseUnsigned w portText with
    | none => fetchUsage k
    | some port =>
      if port = 0 || port > 65535 || remote.head? ≠ some '/'.toUInt8 then fetchUsage k
      else
        match connectTcp host port k with
        | (none, k) => k
        | (some socket, k) => fetchFrom w socket host remote path k
  | _ => fetchUsage k

end LinuxBuild
