import LinuxBuild.Syscall

/-!
# `payload/util.c`: printing, reading and writing

The functions of `util.c` that make system calls.
-/

namespace LinuxBuild.Payload

open Interaction

/-! ## Writing -/

/-- One round of `write_all`, with the bytes not yet written and the count. -/
def writeTurn (fd : Nat) : Bytes × Nat → Sys ((Bytes × Nat) ⊕ Int)
  | (rest, written) =>
    if rest = [] then pure (.inr written)
    else do
      let count ← sysWrite fd rest
      if count ≤ 0 then pure (.inr count)
      else pure (.inl (rest.drop count.toNat, written + count.toNat))

def writeAll (fd : Nat) (buffer : Bytes) : Sys Int := .loop (writeTurn fd) (buffer, 0)

theorem yields_sysWrite {ε : Type} {answer : ε → Call → Reply × ε} {e : ε} {fd : Nat}
    {bytes : Bytes} : Yields answer e (sysWrite fd bytes) (answer e (.write fd bytes)).1.value
      (answer e (.write fd bytes)).2 :=
  .bind .ask .ret

/-- A round with bytes left, served by any kernel. -/
theorem yields_writeTurn {ε : Type} {answer : ε → Call → Reply × ε} {e : ε} {fd written : Nat}
    {rest : Bytes} (hrest : rest ≠ []) :
    Yields answer e (writeTurn fd (rest, written))
      (if (answer e (.write fd rest)).1.value ≤ 0 then .inr (answer e (.write fd rest)).1.value
        else .inl (rest.drop (answer e (.write fd rest)).1.value.toNat,
          written + (answer e (.write fd rest)).1.value.toNat))
      (answer e (.write fd rest)).2 := by
  rw [writeTurn, if_neg hrest]
  apply Yields.bind yields_sysWrite
  split
  · exact .ret
  · exact .ret

def putsRaw (text : Bytes) : Sys Unit := do
  let _ ← writeAll 1 text

def putLine (text : Bytes) : Sys Unit := do
  putsRaw text
  putsRaw (ascii "\n")

/-- The digits of `value`, the last one first. -/
def unsignedDigits : Nat → Nat → List Nat
  | 0, _ => []
  | fuel + 1, value =>
    value % 10 :: if value / 10 = 0 then [] else unsignedDigits fuel (value / 10)

/-- Digits written one by one. -/
def printDigits (digits : List Nat) : Sys Unit :=
  Prog.forEach digits fun d => do
    let _ ← sysWrite 1 [UInt8.ofNat (48 + d)]

def printUnsigned (value : Nat) : Sys Unit := printDigits (unsignedDigits (value + 1) value).reverse

def printU64 (value : Nat) : Sys Unit := printDigits (skipZeros (u64Digits value 64))

def printIpv4 (address : Nat) : Sys Unit := do
  printUnsigned (address &&& 0xff)
  putsRaw (ascii ".")
  printUnsigned (address >>> 8 &&& 0xff)
  putsRaw (ascii ".")
  printUnsigned (address >>> 16 &&& 0xff)
  putsRaw (ascii ".")
  printUnsigned (address >>> 24 &&& 0xff)

/-- The target is left out where the source passes `NULL`. -/
def printError (command : Bytes) (target : Option Bytes) : Sys Unit := do
  putsRaw command
  putsRaw (ascii ": failed")
  (match target with
    | some target => do
      putsRaw (ascii ": ")
      putsRaw target
    | none => pure ())
  putsRaw (ascii "\n")

/-! ## A console that takes every byte -/

section

variable {ε : Type} {answer : ε → Call → Reply × ε} (put : Bytes → ε → ε)
  (hwrite : ∀ e bytes, answer e (.write 1 bytes) = (⟨bytes.length, [], []⟩, put bytes e))
  (hnil : ∀ e, put [] e = e)

include hwrite hnil

theorem yields_putsRaw_of (text : Bytes) (e : ε) :
    Yields answer e (putsRaw text) () (put text e) := by
  have hall : ∃ n, Yields answer e (writeAll 1 text) n (put text e) := by
    by_cases htext : text = []
    · subst htext
      rw [hnil]
      exact ⟨0, .last .ret⟩
    · have hlength : ¬ ((text.length : Int) ≤ 0) := by
        have := List.length_pos_iff.mpr htext
        omega
      have hturn : Yields answer e (writeTurn 1 (text, 0)) _ _ := yields_writeTurn htext
      simp only [hwrite, if_neg hlength, Int.toNat_natCast, List.drop_length] at hturn
      exact ⟨_, .again hturn (.last .ret)⟩
  obtain ⟨n, hn⟩ := hall
  exact .bind hn .ret

theorem yields_printDigits_of (happend : ∀ a b e, put b (put a e) = put (a ++ b) e)
    (digits : List Nat) (e : ε) :
    Yields answer e (printDigits digits) ()
      (put (digits.map fun d => UInt8.ofNat (48 + d)) e) := by
  induction digits generalizing e with
  | nil =>
    rw [List.map_nil, hnil]
    exact .ret
  | cons d digits ih =>
    have hdigit : Yields answer e (sysWrite 1 [UInt8.ofNat (48 + d)]) 1
        (put [UInt8.ofNat (48 + d)] e) := by
      have h : Yields answer e (sysWrite 1 [UInt8.ofNat (48 + d)]) _ _ := yields_sysWrite
      rwa [hwrite] at h
    have hrest := ih (put [UInt8.ofNat (48 + d)] e)
    rw [happend] at hrest
    exact .bind (.bind hdigit .ret) hrest

end

/-! ## What is called to print -/

section

variable {P : Call → Prop}

theorem calls_writeAll {fd : Nat} (h : ∀ bytes, P (.write fd bytes)) (buffer : Bytes) :
    CallsOnly P (writeAll fd buffer) := by
  refine .loop fun x => ?_
  rw [writeTurn]
  refine .ite .ret (.bind (.bind (.ask (h _)) fun _ => .ret) fun count => ?_)
  exact .ite .ret .ret

variable (hP : ∀ bytes, P (.write 1 bytes))

include hP

theorem calls_putsRaw (text : Bytes) : CallsOnly P (putsRaw text) :=
  .bind (calls_writeAll hP text) fun _ => .ret

theorem calls_putLine (text : Bytes) : CallsOnly P (putLine text) :=
  .bind (calls_putsRaw hP text) fun _ => calls_putsRaw hP _

theorem calls_printDigits (digits : List Nat) : CallsOnly P (printDigits digits) :=
  .forEach fun _ => .bind (.bind (.ask (hP _)) fun _ => .ret) fun _ => .ret

theorem calls_printUnsigned (value : Nat) : CallsOnly P (printUnsigned value) :=
  calls_printDigits hP _

theorem calls_printU64 (value : Nat) : CallsOnly P (printU64 value) := calls_printDigits hP _

theorem calls_printIpv4 (address : Nat) : CallsOnly P (printIpv4 address) := by
  apply CallsOnly.bind (calls_printUnsigned hP _)
  intro _
  apply CallsOnly.bind (calls_putsRaw hP _)
  intro _
  apply CallsOnly.bind (calls_printUnsigned hP _)
  intro _
  apply CallsOnly.bind (calls_putsRaw hP _)
  intro _
  apply CallsOnly.bind (calls_printUnsigned hP _)
  intro _
  apply CallsOnly.bind (calls_putsRaw hP _)
  intro _
  exact calls_printUnsigned hP _

theorem calls_printError (command : Bytes) (target : Option Bytes) :
    CallsOnly P (printError command target) := by
  apply CallsOnly.bind (calls_putsRaw hP _)
  intro _
  apply CallsOnly.bind (calls_putsRaw hP _)
  intro _
  refine .bind ?_ fun _ => calls_putsRaw hP _
  cases target with
  | none => exact .ret
  | some target => exact .bind (calls_putsRaw hP _) fun _ => calls_putsRaw hP _

end

/-! ## Reading -/

/-- One round of `read_line`, with the line read so far. -/
def readTurn (capacity : Nat) (line : Bytes) : Sys (Bytes ⊕ Option Bytes) :=
  if line.length + 1 < capacity then do
    let r ← sysRead 0 1
    let value := r.data.headD 0
    if r.value ≤ 0 then pure (.inr none)
    else if value = cr then pure (.inl line)
    else if value = lf then pure (.inr (some line))
    else pure (.inl (line ++ [value]))
  else pure (.inr (some line))

/-- `none` is the result -1. -/
def readLine (capacity : Nat) : Sys (Option Bytes) := .loop (readTurn capacity) []

/-! ## Checksums -/

/-- The sum of 16-bit words, as the target loads them, in 32 bits. -/
def wordSum : Nat → Bytes → Nat
  | sum, [] => sum
  | sum, [last] => (sum + last.toNat) % 2 ^ 32
  | sum, low :: high :: rest => wordSum ((sum + (low.toNat + 256 * high.toNat)) % 2 ^ 32) rest

/-- Every round makes the sum smaller, so it bounds the rounds. -/
def foldCarries : Nat → Nat → Nat
  | 0, sum => sum
  | fuel + 1, sum =>
    if sum >>> 16 = 0 then sum else foldCarries fuel ((sum &&& 0xffff) + sum >>> 16)

def internetChecksum (buffer : Bytes) : Nat :=
  let sum := wordSum 0 buffer
  2 ^ 16 - 1 - foldCarries sum sum

end LinuxBuild.Payload
