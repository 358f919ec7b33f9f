import LinuxBuild.Bytes
import LinuxBuild.Python

/-!
# `bytes.decode(errors='replace')`

Each longest start of a character that does not go on, and each byte that
starts none, becomes one U+FFFD.
-/

namespace LinuxBuild.Utf8

def replacement : Char := '\uFFFD'

/-- A character that is not finished: its bits so far, the bounds of the byte
that must come next, and how many come after that one. -/
structure Pending where
  bits : Nat
  low : Nat
  high : Nat
  more : Nat
  deriving DecidableEq

inductive Lead
  | char (c : Char)
  | pending (p : Pending)
  | invalid

def lead (b : Nat) : Lead :=
  if b < 0x80 then .char (Char.ofNat b)
  else if b < 0xc2 then .invalid
  else if b < 0xe0 then .pending ⟨b - 0xc0, 0x80, 0xbf, 0⟩
  else if b < 0xf0 then
    .pending ⟨b - 0xe0, if b = 0xe0 then 0xa0 else 0x80, if b = 0xed then 0x9f else 0xbf, 1⟩
  else if b < 0xf5 then
    .pending ⟨b - 0xf0, if b = 0xf0 then 0x90 else 0x80, if b = 0xf4 then 0x8f else 0xbf, 2⟩
  else .invalid

def start (b : Nat) : Text × Option Pending :=
  match lead b with
  | .char c => ([c], none)
  | .pending p => ([], some p)
  | .invalid => ([replacement], none)

/-- One byte: the characters it settles, and what stays unfinished. -/
def feed (s : Option Pending) (byte : UInt8) : Text × Option Pending :=
  let b := byte.toNat
  match s with
  | none => start b
  | some p =>
    if p.low ≤ b ∧ b ≤ p.high then
      let bits := p.bits * 64 + (b - 0x80)
      match p.more with
      | 0 => ([Char.ofNat bits], none)
      | more + 1 => ([], some ⟨bits, 0x80, 0xbf, more⟩)
    else (replacement :: (start b).1, (start b).2)

def flush (s : Option Pending) : Text := if s.isSome then [replacement] else []

def decodeFrom (s : Option Pending) : Bytes → Text
  | [] => flush s
  | b :: rest => (feed s b).1 ++ decodeFrom (feed s b).2 rest

def decode (bytes : Bytes) : Text := decodeFrom none bytes

/-! ## Read on -/

def settled (s : Option Pending) : Bytes → Text
  | [] => []
  | b :: rest => (feed s b).1 ++ settled (feed s b).2 rest

def after (s : Option Pending) : Bytes → Option Pending
  | [] => s
  | b :: rest => after (feed s b).2 rest

theorem flush_eq (s : Option Pending) : ∀ c ∈ flush s, c = replacement := by
  intro c hc
  cases s with
  | none => cases hc
  | some p => exact List.mem_singleton.mp hc

theorem decodeFrom_append (s : Option Pending) (front back : Bytes) :
    decodeFrom s (front ++ back) = settled s front ++ decodeFrom (after s front) back := by
  induction front generalizing s with
  | nil => rfl
  | cons b front ih => simp [decodeFrom, settled, after, ih]

/-- A byte settles replacements, and then at most one character, after which
nothing is unfinished. -/
theorem feed_shape (s : Option Pending) (b : UInt8) :
    ∃ front last : Text, (∀ c ∈ front, c = replacement) ∧ last.length ≤ 1 ∧
      (feed s b).1 = front ++ last ∧ (last ≠ [] → (feed s b).2 = none) := by
  have hstart : ∃ front last : Text, (∀ c ∈ front, c = replacement) ∧ last.length ≤ 1 ∧
      (start b.toNat).1 = front ++ last ∧ (last ≠ [] → (start b.toNat).2 = none) := by
    unfold start
    cases lead b.toNat with
    | char c => exact ⟨[], [c], by simp, by simp, rfl, fun _ => rfl⟩
    | pending p => exact ⟨[], [], by simp, by simp, rfl, fun h => absurd rfl h⟩
    | invalid => exact ⟨[replacement], [], by simp, by simp, rfl, fun h => absurd rfl h⟩
  cases s with
  | none => exact hstart
  | some p =>
    simp only [feed]
    split
    · cases p.more with
      | zero => exact ⟨[], [_], by simp, by simp, rfl, fun _ => rfl⟩
      | succ more => exact ⟨[], [], by simp, by simp, rfl, fun h => absurd rfl h⟩
    · obtain ⟨front, last, hfront, hlast, heq, hnone⟩ := hstart
      refine ⟨replacement :: front, last, ?_, hlast, by simp [heq], hnone⟩
      simpa using hfront

/-- What a byte and the end of the bytes after it settle. -/
theorem decodeFrom_single (s : Option Pending) (b : UInt8) :
    ∃ front last : Text, (∀ c ∈ front, c = replacement) ∧ last.length ≤ 1 ∧
      decodeFrom s [b] = front ++ last := by
  obtain ⟨front, last, hfront, hlast, heq, hnone⟩ := feed_shape s b
  by_cases hl : last = []
  · refine ⟨front ++ flush (feed s b).2, [], ?_, by simp, by simp [decodeFrom, heq, hl]⟩
    intro c hc
    rcases List.mem_append.mp hc with hc | hc
    · exact hfront c hc
    · exact flush_eq _ c hc
  · exact ⟨front, last, hfront, hlast, by simp [decodeFrom, heq, hnone hl, flush]⟩

end LinuxBuild.Utf8
