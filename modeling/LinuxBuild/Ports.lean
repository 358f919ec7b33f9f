import LinuxBuild.Arguments

/-!
# Ports

The port checks take exactly the numerals from 1 to 65535: a number up to 65535
is, with one more digit, still far from the end of the word, so no numeral that
wraps around comes back down to it. Every socket address then holds that port,
high byte first.
-/

namespace LinuxBuild.Payload

open Interaction

/-- A numeral from 1 to 65535. -/
def IsPort (text : Bytes) : Prop := IsNumeral text ∧ 1 ≤ decimal text ∧ decimal text ≤ 65535

instance (text : Bytes) : Decidable (IsPort text) := inferInstanceAs (Decidable (_ ∧ _))

theorem bits_ge (w : Word) : 2 ^ 32 ≤ 2 ^ w.bits := by
  cases w <;> decide

/-- A numeral that is parsed to a small number is that small. -/
theorem decimal_lt {w : Word} {text : Bytes} (hnum : IsNumeral text)
    (hfalls : Numeral.falls w.bits 0 (text.map digit) = false)
    (hle : decimal text % 2 ^ w.bits ≤ 65535) : decimal text < 2 ^ w.bits := by
  have hbits := bits_ge w
  have hroom : 65535 * 10 + 9 < 2 ^ w.bits := by omega
  refine Numeral.lt_of_not_falls hroom ?_ (by omega) hfalls hle
  intro d hd
  obtain ⟨c, hc, rfl⟩ := List.mem_map.mp hd
  exact digit_lt (hnum.2 c hc)

theorem portOf_eq_some {w : Word} {text : Bytes} {port : Nat} :
    portOf w text = some port ↔ IsPort text ∧ decimal text = port := by
  have hbits := bits_ge w
  rw [portOf, Option.filter_eq_some_iff, parseUnsigned_eq_some]
  simp only [Bool.and_eq_true, decide_eq_true_eq]
  constructor
  · rintro ⟨⟨hnum, hfalls, hv⟩, hzero, hle⟩
    have hlt := decimal_lt hnum hfalls (by omega)
    rw [Nat.mod_eq_of_lt hlt] at hv
    exact ⟨⟨hnum, by omega, by omega⟩, hv⟩
  · rintro ⟨⟨hnum, hone, hle⟩, rfl⟩
    have hlt : decimal text < 2 ^ w.bits := by omega
    exact ⟨⟨hnum, Numeral.not_falls_of_lt hlt, Nat.mod_eq_of_lt hlt⟩, by omega, hle⟩

theorem portOf_eq (w : Word) (text : Bytes) :
    portOf w text = if IsPort text then some (decimal text) else none := by
  by_cases hport : IsPort text
  · rw [if_pos hport]
    exact portOf_eq_some.mpr ⟨hport, rfl⟩
  · rw [if_neg hport]
    refine Option.eq_none_iff_forall_ne_some.mpr fun port h => hport (portOf_eq_some.mp h).1

/-- The socket address a call passes. -/
def Call.address : Call → Option SockaddrIn
  | .bind _ address | .connect _ address | .sendto _ _ address => some address
  | _ => none

section

variable {P : Call → Prop} (hP : ∀ c, c.address = none → P c)

theorem calls_status {c : Call} (hc : P c) : CallsOnly P (status c) := .bind (.ask hc) fun _ => .ret

include hP

theorem writes (bytes : Bytes) : P (.write 1 bytes) := hP _ rfl

theorem calls_ask {c : Call} (hc : c.address = none) : CallsOnly P (.ask c : Sys Reply) :=
  .ask (hP c hc)

theorem calls_close (fd : Nat) : CallsOnly P (sysClose fd) := .bind (calls_ask hP rfl) fun _ => .ret

theorem calls_fetchBody (expected : Option Nat) (socket output : Nat) (path : Bytes) :
    CallsOnly P (fetchBody expected socket output path) := by
  apply CallsOnly.bind (calls_copyBody (fun _ => hP _ rfl) fun _ => hP _ rfl)
  intro result
  apply CallsOnly.bind (calls_close hP _)
  intro _
  refine .bind (calls_close hP _) fun _ => .ite ?_ ?_
  · exact .bind (calls_status (hP _ rfl)) fun _ => calls_printError (writes hP) _ _
  · apply CallsOnly.bind (calls_putsRaw (writes hP) _)
    intro _
    apply CallsOnly.bind (calls_printU64 (writes hP) _)
    intro _
    exact .bind (calls_putsRaw (writes hP) _) fun _ => calls_putLine (writes hP) _

theorem calls_fetchInto (expected : Option Nat) (socket : Nat) (path : Bytes) :
    CallsOnly P (fetchInto expected socket path) := by
  apply CallsOnly.bind (.bind (calls_ask hP rfl) fun _ => .ret)
  intro output
  cases output with
  | none => exact .bind (calls_printError (writes hP) _ _) fun _ => calls_close hP _
  | some output =>
    refine .bind (calls_status (hP _ rfl)) fun changed => .ite ?_ ?_
    · apply CallsOnly.bind (calls_printError (writes hP) _ _)
      intro _
      apply CallsOnly.bind (calls_close hP _)
      intro _
      exact .bind (calls_status (hP _ rfl)) fun _ => calls_close hP _
    · exact calls_fetchBody hP _ _ _ _

theorem calls_fetchFrom (w : Word) (socket : Nat) (host remote path : Bytes) :
    CallsOnly P (fetchFrom w socket host remote path) := by
  have hsay : ∀ text, CallsOnly P (do putLine text; sysClose socket) :=
    fun text => .bind (calls_putLine (writes hP) text) fun _ => calls_close hP socket
  refine .bind (calls_writeEach (fun _ => hP _ rfl) _) fun sent => .ite (hsay _) ?_
  apply CallsOnly.bind (calls_readResponseHeader (fun _ => hP _ rfl) _)
  intro header
  cases header with
  | none => exact hsay _
  | some header =>
    dsimp only
    split
    · exact hsay _
    · exact calls_fetchInto hP _ _ _
    · exact calls_fetchInto hP _ _ _

end

/-- `cmd_nc` behind its port checks. -/
theorem cmdNc_eq (w : Word) (name host text : Bytes) :
    cmdNc w [name, host, text] =
      if host = ascii "-l" then
        if IsPort text then ncListen (decimal text) else putLine (ascii "usage: nc -l PORT")
      else if IsPort text then ncClient host (decimal text)
      else putLine (ascii "usage: nc IPv4 PORT | nc -l PORT") := by
  rw [cmdNc, portOf_eq]
  by_cases hport : IsPort text
  · simp only [if_pos hport]
  · simp only [if_neg hport]

/-- `cmd_fetch` behind its port check. -/
theorem cmdFetch_eq (w : Word) (name host text remote path : Bytes) :
    cmdFetch w [name, host, text, remote, path] =
      if IsPort text ∧ remote.head? = some '/'.toUInt8 then do
        match ← connectTcp host (decimal text) with
        | none => pure ()
        | some socket => fetchFrom w socket host remote path
      else fetchUsage := by
  rw [cmdFetch, portOf_eq]
  by_cases hport : IsPort text
  · by_cases hslash : remote.head? = some '/'.toUInt8
    · rw [if_pos hport, if_pos ⟨hport, hslash⟩]
      exact if_neg (not_not_intro hslash)
    · rw [if_pos hport, if_neg fun h => hslash h.2]
      simp only [hslash, ne_eq, not_false_iff, if_true]
  · rw [if_neg hport, if_neg fun h => hport h.1]

end LinuxBuild.Payload
