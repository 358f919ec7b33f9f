import LinuxBuild.Guest

/-!
# Distribution boots

`command`, `reboot` and the boots of `test` in `distro_runtime.py`. What is
sent to the guest is left out: its answers are arbitrary. `decimal` is what
`\d` matches; beyond ASCII that is up to the Unicode tables.
-/

namespace LinuxBuild.DistroRuntime

variable (decimal : Char → Bool)

/-- `guest.raw[offset:]` as `command` looks at it. -/
def outputFrom (g : Guest) (offset : Nat) : Text :=
  Console.dropReturns (Utf8.decode (g.raw.drop offset))

/-- The digits of the first line that is the marker, `=` and digits. -/
def statusOf (marker output : Text) : Option Text :=
  (output.splitOn '\n').findSome? fun line =>
    let digits := line.drop (marker.length + 1)
    if Python.startswith line (marker ++ ['=']) && digits != [] && digits.all decimal then
      some digits
    else none

def command (hex : Text) (g : Guest) (ticks : List Tick) :
    Except Failure (Text × Guest × List Tick) := do
  let marker := text "RAPT_" ++ hex
  let offset := g.raw.length
  let (g, ticks) ←
    Guest.wait (fun g => (statusOf decimal marker (outputFrom g offset)).isSome) g ticks
  let output := outputFrom g offset
  if statusOf decimal marker output ≠ some ['0'] then
    throw (.command (output.drop (output.length - 3000)))
  else return (output, g, ticks)

/-- Anything a read raises counts as the exit of QEMU, if it did exit with 0. -/
def reboot (g : Guest) : List Tick → Except Failure Guest
  | [] => .error .running
  | t :: ticks =>
    if t.late then .error .timeout
    else
      match g.read t with
      | (g, none) => reboot g ticks
      | (g, some failure) =>
        if t.polled ≠ some 0 then .error failure
        else
          let g := { g with raw := g.raw ++ t.rest, log := g.log ++ t.rest }
          if Console.contains (text "reboot: Restarting system") g.text then .ok g
          else .error .noReboot

/-! ## A boot -/

inductive Mode
  | disk
  | persistence
  deriving DecidableEq

inductive Step
  | command
  | bootId
  | check (name : Text)
  deriving DecidableEq

/-- The commands up to the login over SSH, and the checks they settle. -/
def steps : Mode → List Step
  | .disk =>
    [.command, .check (text "memory_1g"), .command, .check (text "kernel_version"),
     .command, .check (text "runtime_mounts"), .bootId, .command, .check (text "dns"),
     .command, .command, .command, .check (text "https"), .command,
     .command, .check (text "package_install"), .command, .check (text "package_execution"),
     .command]
  | .persistence =>
    [.command, .check (text "memory_1g"), .command, .check (text "kernel_version"),
     .command, .check (text "runtime_mounts"), .command, .check (text "new_boot_id"),
     .command, .check (text "file_persistence"), .command, .check (text "package_persistence"),
     .command]

/-- `^BOOT_ID=([a-f0-9-]+)$` finds a line. -/
def hasBootId (output : Text) : Bool :=
  (output.splitOn '\n').any fun line =>
    let id := line.drop 8
    Python.startswith line (text "BOOT_ID=") && id != [] &&
      id.all fun c => c.isDigit || ('a' ≤ c && c ≤ 'f') || c = '-'

/-- What a boot meets: the answers of the console, the fresh marker of each
command, and the exit status and output of `ssh`, unless it takes too long. -/
structure Session where
  ticks : List Tick
  hex : Nat → Text
  ssh : Option (Int × Text)

structure Row where
  mode : Mode
  pass : Bool
  checks : List Text
  log : Bytes

def runSteps (hex : Nat → Text) (checks : List Text) (g : Guest) (ticks : List Tick) :
    List Step → Except Failure (List Text × Guest × List Tick)
  | [] => return (checks, g, ticks)
  | .check name :: steps => runSteps hex (checks ++ [name]) g ticks steps
  | .command :: steps => do
    let (_, g, ticks) ← command decimal (hex 0) g ticks
    runSteps (fun n => hex (n + 1)) checks g ticks steps
  | .bootId :: steps => do
    let (output, g, ticks) ← command decimal (hex 0) g ticks
    if hasBootId output then runSteps (fun n => hex (n + 1)) checks g ticks steps
    else throw .noBootId

def isReady (g : Guest) : Bool :=
  Console.contains (text "Raptor distribution ready:") g.text ||
    Console.contains (text "RAPT_BOOT_FAILED") g.text

def hasPrompt (g : Guest) : Bool := Python.endswith (Python.rstrip g.text) ['#']

def login (mode : Mode) (ssh : Option (Int × Text)) : Except Failure Text :=
  match ssh with
  | none => throw .timeout
  | some (status, stdout) =>
    if status ≠ 0 ∨ Python.strip stdout ≠ ['0'] then throw .ssh
    else
      match mode with
      | .disk => return text "ssh_key_login"
      | .persistence => return text "ssh_key_persistence"

/-- The boot up to the call of `reboot`. -/
def upToReboot (mode : Mode) (w : Session) : Except Failure (List Text × Guest × List Tick) := do
  let (g, ticks) ← Guest.wait isReady Guest.start w.ticks
  if Console.contains (text "RAPT_BOOT_FAILED") g.text then throw .bootFailed
  else
    let (g, ticks) ← Guest.wait hasPrompt g ticks
    let (checks, g, ticks) ← runSteps decimal w.hex [] g ticks (steps mode)
    let check ← login mode w.ssh
    return (checks ++ [check], g, ticks)

def boot (mode : Mode) (w : Session) : Except Failure Row := do
  let (checks, g, ticks) ← upToReboot decimal mode w
  let g ← reboot g ticks
  return ⟨mode, true, checks ++ [text "clean_reboot"], g.log⟩

/-! ## The last read -/

/-- The guest before the read of `reboot` that raises, and what that read met. -/
def lastRead (g : Guest) : List Tick → Option (Guest × Tick)
  | [] => none
  | t :: ticks =>
    if t.late then none
    else
      match g.read t with
      | (next, none) => lastRead next ticks
      | (_, some _) => some (g, t)

/-- A byte that no read scanned completes a failure marker: QEMU exits with 0
and the log shows the reboot, but the read that raised, or what is drained after
it, has a marker that was not there before. -/
def Unscanned (mode : Mode) (w : Session) : Prop :=
  ∃ checks g ticks seen t, upToReboot decimal mode w = .ok (checks, g, ticks) ∧
    lastRead g ticks = some (seen, t) ∧ t.polled = some 0 ∧
    text "reboot: Restarting system" <:+: Console.textOf (seen.raw ++ (t.data ++ t.rest)) ∧
    Console.Completes seen.raw (t.data ++ t.rest)

/-- No failure marker stands in the log of a boot that passed. -/
def CleanIfPassed (mode : Mode) (w : Session) : Prop :=
  ∀ row, boot decimal mode w = .ok row → row.pass = true →
    ∀ marker ∈ Console.failures, ¬ marker <:+: Console.textOf row.log

theorem command_scanned {hex output : Text} {g g' : Guest} {ticks rest : List Tick}
    (hg : Guest.Scanned g) (h : command decimal hex g ticks = .ok (output, g', rest)) :
    Guest.Scanned g' := by
  obtain ⟨⟨next, ticks'⟩, hwait, h⟩ := Python.bind_ok h
  simp only at h
  split at h
  · cases h
  · cases h
    exact Guest.wait_scanned hg hwait

theorem runSteps_scanned {hex : Nat → Text} {checks checks' : List Text} {g g' : Guest}
    {ticks rest : List Tick} {steps : List Step} (hg : Guest.Scanned g)
    (h : runSteps decimal hex checks g ticks steps = .ok (checks', g', rest)) :
    Guest.Scanned g' := by
  induction steps generalizing hex checks g ticks with
  | nil =>
    cases h
    exact hg
  | cons step steps ih =>
    cases step with
    | check name => exact ih hg h
    | command =>
      obtain ⟨⟨output, next, ticks'⟩, hcommand, h⟩ := Python.bind_ok h
      exact ih (command_scanned decimal hg hcommand) h
    | bootId =>
      obtain ⟨⟨output, next, ticks'⟩, hcommand, h⟩ := Python.bind_ok h
      simp only at h
      split at h
      · exact ih (command_scanned decimal hg hcommand) h
      · cases h

theorem upToReboot_scanned {mode : Mode} {w : Session} {checks : List Text} {g : Guest}
    {ticks : List Tick} (h : upToReboot decimal mode w = .ok (checks, g, ticks)) :
    Guest.Scanned g := by
  obtain ⟨⟨ready, ticks₁⟩, hready, h⟩ := Python.bind_ok h
  simp only at h
  split at h
  · cases h
  · obtain ⟨⟨prompt, ticks₂⟩, hprompt, h⟩ := Python.bind_ok h
    obtain ⟨⟨checks', next, ticks₃⟩, hsteps, h⟩ := Python.bind_ok h
    obtain ⟨check, _, h⟩ := Python.bind_ok h
    cases h
    exact runSteps_scanned decimal
      (Guest.wait_scanned (Guest.wait_scanned Guest.scanned_start hready) hprompt) hsteps

theorem lastRead_scanned {g seen : Guest} {ticks : List Tick} {t : Tick} (hg : Guest.Scanned g)
    (h : lastRead g ticks = some (seen, t)) : Guest.Scanned seen := by
  induction ticks generalizing g with
  | nil => cases h
  | cons tick ticks ih =>
    have hread := Guest.read_scanned (t := tick) hg
    simp only [lastRead] at h
    split at h
    · cases h
    · generalize g.read tick = r at h hread
      obtain ⟨next, failure⟩ := r
      cases failure with
      | none => exact ih (hread rfl) h
      | some failure =>
        cases h
        exact hg

/-- `reboot` returns exactly when its last read meets the exit of QEMU with 0
and the log then shows the reboot. -/
theorem reboot_ok_iff {g : Guest} {ticks : List Tick} {log : Bytes} (hg : Guest.Scanned g) :
    (∃ g', reboot g ticks = .ok g' ∧ g'.log = log) ↔
      ∃ seen t, lastRead g ticks = some (seen, t) ∧ t.polled = some 0 ∧
        text "reboot: Restarting system" <:+: Console.textOf (seen.raw ++ (t.data ++ t.rest)) ∧
        log = seen.raw ++ (t.data ++ t.rest) := by
  induction ticks generalizing g with
  | nil => simp [reboot, lastRead]
  | cons t ticks ih =>
    obtain ⟨hraw, hlog⟩ := Guest.read_appends g t
    have hread := Guest.read_scanned (t := t) hg
    simp only [reboot, lastRead]
    cases t.late with
    | true => simp
    | false =>
      generalize g.read t = r at hraw hlog hread ⊢
      obtain ⟨next, failure⟩ := r
      simp only at hraw hlog hread
      cases failure with
      | none => simpa using ih (hread rfl)
      | some failure =>
        simp only [Guest.text, hraw, hlog, hg.log, List.append_assoc, Bool.false_eq_true, if_false]
        constructor
        · rintro ⟨g', h, rfl⟩
          split at h
          · cases h
          · rename_i hpoll
            split at h
            · rename_i hcontains
              cases h
              exact ⟨g, t, rfl, Decidable.not_not.mp hpoll,
                (Console.contains_iff _ _).mp hcontains, rfl⟩
            · cases h
        · rintro ⟨_, _, heq, hpoll, hcontains, rfl⟩
          cases heq
          rw [if_neg (not_not_intro hpoll), if_pos ((Console.contains_iff _ _).mpr hcontains)]
          exact ⟨_, rfl, rfl⟩

/-- A boot that passes has a clean log exactly unless bytes that were not
scanned complete a marker. -/
theorem passed_boot_log_clean_iff (mode : Mode) (w : Session) :
    CleanIfPassed decimal mode w ↔ ¬ Unscanned decimal mode w := by
  constructor
  · rintro h ⟨checks, g, ticks, seen, t, hup, hlast, hpoll, hcontains, hcompletes⟩
    have hg := upToReboot_scanned decimal hup
    obtain ⟨g', hreboot, hlog⟩ := (reboot_ok_iff hg).mpr ⟨seen, t, hlast, hpoll, hcontains, rfl⟩
    have hboot : boot decimal mode w =
        .ok ⟨mode, true, checks ++ [text "clean_reboot"], g'.log⟩ := by
      rw [boot, hup]
      change (reboot g ticks >>= _) = _
      rw [hreboot]
      rfl
    have hfail := (Console.failureIn_append_iff (lastRead_scanned hg hlast).clean _).mpr hcompletes
    obtain ⟨marker, hmem, hin⟩ := (Console.failureIn_iff _).mp hfail
    exact h _ hboot rfl marker hmem (by rwa [hlog])
  · intro h row hboot _ marker hmem hin
    obtain ⟨⟨checks, g, ticks⟩, hup, hboot⟩ := Python.bind_ok hboot
    obtain ⟨g', hreboot, hboot⟩ := Python.bind_ok hboot
    cases hboot
    have hg := upToReboot_scanned decimal hup
    obtain ⟨seen, t, hlast, hpoll, hcontains, hlog⟩ :=
      (reboot_ok_iff hg).mp ⟨g', hreboot, rfl⟩
    rw [hlog] at hin
    have hfail := (Console.failureIn_iff _).mpr ⟨marker, hmem, hin⟩
    exact h ⟨checks, g, ticks, seen, t, hup, hlast, hpoll, hcontains,
      (Console.failureIn_append_iff (lastRead_scanned hg hlast).clean _).mp hfail⟩

/-- Waits for what the guest prints until it is there. -/
def prints (chunk : Bytes) : List Tick :=
  [⟨false, some chunk, none, none, []⟩, ⟨false, none, none, none, []⟩]

def okLine (hex : Text) : Bytes := lf :: (ascii "RAPT_" ++ hex.map Char.toUInt8 ++ ascii "=0\n")

/-- A second boot that panics while it reboots. -/
def panickedSession : Session where
  ticks :=
    prints (ascii "Raptor distribution ready:\n# ") ++ [⟨false, none, none, none, []⟩] ++
      ((List.range 7).flatMap fun n => prints (okLine (List.replicate 32 (Nat.digitChar n)))) ++
      [⟨false, some (ascii "Kernel panic - not syncing\nreboot: Restarting system\n"), none,
        some 0, []⟩]
  hex := fun n => List.replicate 32 (Nat.digitChar n)
  ssh := some (0, text "0\n")

theorem passed_boot_with_panic : ¬ CleanIfPassed Char.isDigit .persistence panickedSession := by
  have hrow : (boot Char.isDigit .persistence panickedSession).toOption.any (fun row =>
      row.pass && Console.contains (text "Kernel panic") (Console.textOf row.log)) = true := by
    decide +kernel
  intro h
  cases hboot : boot Char.isDigit .persistence panickedSession with
  | error failure => simp [hboot, Except.toOption] at hrow
  | ok row =>
    simp only [hboot, Except.toOption, Option.any_some, Bool.and_eq_true,
      Console.contains_iff] at hrow
    exact h row hboot hrow.1 _ (by decide) hrow.2

end LinuxBuild.DistroRuntime
