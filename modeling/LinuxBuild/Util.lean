import LinuxBuild.Kernel

/-!
# `payload/util.c`

Strings are NUL-terminated, so a text is the list of bytes before its NUL.
`unsigned long` has the bits of the target's word.
-/

namespace LinuxBuild

/-- The two targets of `payload/Makefile`. -/
inductive Word where
  | rv32
  | rv64
  deriving DecidableEq, Repr

def Word.bits : Word → Nat
  | .rv32 => 32
  | .rv64 => 64

/-- The C string at the start of a buffer. -/
def cstr (buffer : Bytes) : Bytes := buffer.takeWhile (· ≠ 0)

def isSpace (value : UInt8) : Bool :=
  value = ' '.toUInt8 || value = '\t'.toUInt8 || value = cr || value = lf

/-! ## Numbers and addresses -/

def parseUnsignedFrom (w : Word) : Nat → Bytes → Option Nat
  | parsed, [] => some parsed
  | parsed, c :: text =>
    if !isDigit c then none
    else
      let next := (parsed * 10 + digit c) % 2 ^ w.bits
      if next < parsed then none else parseUnsignedFrom w next text

def parseUnsigned (w : Word) (text : Bytes) : Option Nat :=
  if text = [] then none else parseUnsignedFrom w 0 text

/-- The scan of `parse_ipv4`: finished octets, the current value, and whether
it has a digit yet. -/
def parseIpv4From (octets : List Nat) (value : Nat) (hasDigit : Bool) : Bytes → Option Nat
  | [] =>
    if !hasDigit || octets.length != 3 then none
    else
      some (octets.getD 0 0 ||| octets.getD 1 0 <<< 8 ||| octets.getD 2 0 <<< 16 ||| value <<< 24)
  | c :: text =>
    if isDigit c then
      let next := value * 10 + digit c
      if next > 255 then none else parseIpv4From octets next true text
    else if c = '.'.toUInt8 && hasDigit && octets.length < 3 then
      parseIpv4From (octets ++ [value]) 0 false text
    else none

def parseIpv4 (text : Bytes) : Option Nat := parseIpv4From [] 0 false text

def hostToNetwork16 (value : Nat) : Nat := (value <<< 8 ||| value >>> 8) % 2 ^ 16

/-! ## Printing -/

/-- The text that is handed to the console. The write, which may be cut or fail, is a call
in `Stdio`. -/
def putsRaw (text : Bytes) (k : Kernel) : Kernel := { k with console := k.console ++ text }

def putLine (text : Bytes) (k : Kernel) : Kernel := putsRaw (ascii "\n") (putsRaw text k)

/-- One round of `print_u64`: the decimal digits doubled, the last one first,
with a carry in and a carry out. -/
def doubleDigits (carry : Nat) : List Nat → Nat × List Nat
  | [] => (carry, [])
  | d :: ds =>
    let (c, ds) := doubleDigits carry ds
    let twice := d * 2 + c
    if twice ≥ 10 then (1, (twice - 10) :: ds) else (0, twice :: ds)

/-- The 20 digits after `n` rounds, which take the bits from bit 63 down. -/
def u64Digits (value : Nat) : Nat → List Nat
  | 0 => List.replicate 20 0
  | n + 1 => (doubleDigits (value >>> (63 - n) &&& 1) (u64Digits value n)).2

/-- Leading zeros are dropped, but never the last digit. -/
def skipZeros : List Nat → List Nat
  | [] => []
  | [d] => [d]
  | d :: ds => if d = 0 then skipZeros ds else d :: ds

/-- The text `print_u64` writes. -/
def u64Text (value : Nat) : Bytes :=
  (skipZeros (u64Digits value 64)).map fun d => UInt8.ofNat (48 + d)

def printU64 (value : Nat) (k : Kernel) : Kernel := putsRaw (u64Text value) k

def printError (command target : Bytes) (k : Kernel) : Kernel :=
  putsRaw (ascii "\n") (putsRaw target (putsRaw (ascii ": ") (putsRaw (ascii ": failed")
    (putsRaw command k))))

/-! ## Reading and writing -/

/-- The loop of `write_all`, over the bytes not yet written. -/
def writeLoop : Nat → Nat → Bytes → Nat → Kernel → Int × Kernel
  | 0, _, _, written, k => (written, k)
  | fuel + 1, fd, rest, written, k =>
    if rest = [] then (written, k)
    else
      match sysWrite fd rest k with
      | (count, k) =>
        if count ≤ 0 then (count, k)
        else writeLoop fuel fd (rest.drop count.toNat) (written + count.toNat) k

/-- Every round but the last writes a byte, so the length bounds the rounds. -/
def writeAll (fd : Nat) (bytes : Bytes) (k : Kernel) : Int × Kernel :=
  writeLoop bytes.length fd bytes 0 k

/-- The loop of `read_line` over the bytes the console still delivers, with
the line read so far. `none` while it waits for a byte. -/
def readLineFrom (capacity : Nat) (line : Bytes) : Bytes → Option (Bytes × Bytes)
  | [] => if line.length + 1 < capacity then none else some (line, [])
  | value :: input =>
    if line.length + 1 < capacity then
      if value = cr then readLineFrom capacity line input
      else if value = lf then some (line, input)
      else readLineFrom capacity (line ++ [value]) input
    else some (line, value :: input)

def readLine (capacity : Nat) (input : Bytes) : Option (Bytes × Bytes) :=
  readLineFrom capacity [] input

/-- The loop of `split_args` with `room` free argument slots: `done` is the
buffer before the cursor, already overwritten, `rest` what is at and after it. -/
def splitArgsFrom : Nat → Bytes → Bytes → List Nat × Bytes × Bytes
  | 0, done, rest => ([], done, rest)
  | room + 1, done, rest =>
    let start := done ++ (rest.takeWhile isSpace).map fun _ => 0
    match rest.dropWhile isSpace with
    | [] => ([], start, [])
    | c :: text =>
      let word := (c :: text).takeWhile (!isSpace ·)
      let (argv, done, rest) := splitArgsFrom room (start ++ word) ((c :: text).dropWhile (!isSpace ·))
      (start.length :: argv, done, rest)

/-- Offsets of the arguments, and the buffer they point into. -/
def splitArgs (line : Bytes) (capacity : Nat) : List Nat × Bytes :=
  let (argv, done, rest) := splitArgsFrom (capacity - 1) [] line
  match rest with
  | [] => (argv, done)
  | _ :: text => (argv, done ++ 0 :: text)

/-- The strings `argv` holds after `split_args`. -/
def argvOf (line : Bytes) (capacity : Nat) : List Bytes :=
  let (argv, buffer) := splitArgs line capacity
  argv.map fun offset => cstr (buffer.drop offset)

example : argvOf (ascii "  fetch 10.0.2.2\t80 /x ") 16 =
    [ascii "fetch", ascii "10.0.2.2", ascii "80", ascii "/x"] := by decide

end LinuxBuild
