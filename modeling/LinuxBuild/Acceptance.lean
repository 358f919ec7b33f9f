import LinuxBuild.Chunks
import LinuxBuild.Release
import Mathlib.Algebra.Order.Ring.Unbundled.Rat
import Mathlib.Data.List.Sort

/-!
# Boots of the initramfs packages

`tiny_network_and_exec`, `buildroot_capabilities` and `boot` of
`test-packages.py`. What is sent to the guest is left out where nothing reads
it; `lower` is `str.lower`.
-/

namespace LinuxBuild.Acceptance

open Repository (Variant)
open Release (BootRow)

inductive Refusal where
  | guest (failure : Failure)
  | runtime (message : Text)
  | raised
  deriving DecidableEq

inductive Mode where
  | split
  | payload
  | shell
  deriving DecidableEq

def Mode.name : Mode → Text
  | .split => text "split"
  | .payload => text "payload"
  | .shell => text "shell"

def brMarkers : List Text :=
  [text "RAPT_ACCEPT_BEGIN", text "RAPT_CHILD_COUNT=100", text "RAPT_CHILD_PASS",
   text "RAPT_SLEEP_BEGIN", text "RAPT_SLEEP_PASS", text "RAPT_ACCEPT_END"]

/-- What a boot meets: whether QEMU is installed and the probe compiles, the
port of the server, the clock at each line that is recorded, and the time each
command takes. -/
structure Session where
  qemu : Bool
  compiled : Bool
  port : Text
  ticks : List Tick
  clock : Nat → Rat
  elapsed : Nat → Rat

/-! ## Waiting -/

def waitFor (ready : Guest → Bool) (g : Guest) (ticks : List Tick) :
    Except Refusal (Guest × List Tick) :=
  match Guest.wait ready g ticks with
  | .ok found => .ok found
  | .error failure => .error (.guest failure)

/-- `clean(guest.raw[offset:].decode(errors='replace'))`. -/
def outputFrom (g : Guest) (offset : Nat) : Text := Console.textOf (g.raw.drop offset)

/-- What is printed up to the next prompt. -/
def answer (prompt : Text) (g : Guest) (ticks : List Tick) :
    Except Refusal (Text × Guest × List Tick) := do
  let offset := g.raw.length
  let (g, ticks) ← waitFor (fun g => Python.endswith (outputFrom g offset) prompt) g ticks
  return (outputFrom g offset, g, ticks)

/-- `(?:^|\n)[^\n]*` and the ending, with `$`: there may be one more newline. -/
def endsLine (ending printed : Text) : Bool :=
  Python.endswith printed ending || Python.endswith printed (ending ++ ['\n'])

/-! ## Networking -/

section

variable (lower : Text → Text)

def tinyPrompt : Text := text "tinysh# "

def networkCommands (tiny : Bool) (port : Text) : List (Text × Text) :=
  [(if tiny then text "ping 10.0.2.2" else text "ping -c 3 10.0.2.2",
    if tiny then text "3/3 replies" else text "3 packets received"),
   (text "fetch 10.0.2.2 " ++ port ++ text " /probe /tmp/probe", text "saved "),
   (text "run /tmp/probe", text "exit 37")] ++
  if tiny then []
  else
    [(text "printf 'GET /probe HTTP/1.0\\r\\n\\r\\n' | nc -w 5 10.0.2.2 " ++ port ++
        text " > /tmp/nc-http; grep -q '200 OK' /tmp/nc-http && echo RAPT_NC_PASS",
      text "RAPT_NC_PASS")]

def checkNetwork (command expected output : Text) : Except Refusal Unit :=
  if Console.contains expected output = false ∨
      Console.contains (text "failed") (lower output) = true then
    throw (.runtime (text "tiny network/exec check failed: " ++ command ++ text ": " ++ output))
  else if Python.startswith command (text "run ") = true ∧
      Console.contains (text "\nRAPT_EXEC_CHILD\n") output = false then
    throw (.runtime (text "downloaded child did not execute"))
  else if expected = text "RAPT_NC_PASS" ∧
      Console.contains (text "\nRAPT_NC_PASS\n") output = false then
    throw (.runtime (text "BusyBox nc transfer failed"))
  else return

/-- The loop over the commands, with those checked so far. -/
def networkFrom (prompt : Text) (checked : List Text) (g : Guest) (ticks : List Tick) :
    List (Text × Text) → Except Refusal (List Text × Guest × List Tick)
  | [] => return (checked, g, ticks)
  | (command, expected) :: rest => do
    let (output, g, ticks) ← answer prompt g ticks
    checkNetwork lower command expected output
    networkFrom prompt (checked ++ [command]) g ticks rest

def tinyNetworkAndExec (w : Session) (tiny : Bool) (g : Guest) (ticks : List Tick) :
    Except Refusal (List Text × Guest × List Tick) :=
  if w.compiled = false then throw .raised
  else networkFrom lower (if tiny then tinyPrompt else text "# ") [] g ticks
    (networkCommands tiny w.port)

/-! ## Capabilities -/

def stepMarker (index : Nat) : Text := text "RAPT_BASELINE_STEP_" ++ Nat.toDigits 10 index

def capabilitiesFrom (g : Guest) (ticks : List Tick) :
    List Nat → Except Refusal (Guest × List Tick)
  | [] => return (g, ticks)
  | index :: rest => do
    let offset := g.raw.length
    let (g, ticks) ← waitFor (fun g =>
      Console.contains (['\n'] ++ stepMarker index ++ ['\n']) (outputFrom g offset) &&
        Python.endswith g.text (text "# ")) g ticks
    capabilitiesFrom g ticks rest

/-- The four groups of checks, and what is then recorded. -/
def buildrootCapabilities (g : Guest) (ticks : List Tick) :
    Except Refusal (List Text × Guest × List Tick) := do
  let (g, ticks) ← capabilitiesFrom g ticks [0, 1, 2, 3]
  return ([text "proc_cpuinfo", text "sysfs", text "devtmpfs", text "devpts",
    text "tinysh_command_baseline", text "filesystem_operations"], g, ticks)

/-! ## Acceptance of a payload -/

/-- `guest.events[m]`. -/
def eventTime (w : Session) (g : Guest) (m : Text) : Rat := w.clock (g.events.idxOf m)

def sleepElapsed (w : Session) (g : Guest) : Rat :=
  eventTime w g (text "RAPT_SLEEP_PASS") - eventTime w g (text "RAPT_SLEEP_BEGIN")

/-- `BR_COMMAND`, up to the time its `sleep 90` took. -/
def acceptBuildroot (w : Session) (g : Guest) (ticks : List Tick) :
    Except Refusal (Rat × Guest) := do
  let (g, _) ← waitFor (fun g => g.events.contains (text "RAPT_ACCEPT_END")) g ticks
  if brMarkers.any (fun m => !g.events.contains m) = true then
    throw (.runtime (text "missing functional acceptance markers"))
  let positions := brMarkers.map (eventTime w g)
  if positions ≠ positions.insertionSort (· ≤ ·) then
    throw (.runtime (text "acceptance markers arrived out of order"))
  if sleepElapsed w g < 89 then
    throw (.runtime (text "90-second sleep returned too early"))
  return (sleepElapsed w g, g)

def tinyChecks : List (Text × Option Text) :=
  [(text "uname", some (text "Linux")), (text "touch /tmp/raptor-release-check", none),
   (text "ls /tmp", some (text "raptor-release-check")),
   (text "rm /tmp/raptor-release-check", none), (text "sleep 2", none),
   (text "echo RAPT_TINY_END", some (text "RAPT_TINY_END"))]

def checkTiny (command : Text) (expected : Option Text) (output : Text) (elapsed : Rat) :
    Except Refusal Unit :=
  if expected.any (fun e => !Console.contains e output) = true then
    throw (.runtime (text "tiny shell check failed: " ++ command))
  else if command = text "sleep 2" ∧ elapsed < 9 / 5 then
    throw (.runtime (text "tiny shell sleep returned too early"))
  else if Console.contains (text "failed") (lower output) = true ∨
      Console.contains (text "unknown command") (lower output) = true then
    throw (.runtime (text "tiny shell command error: " ++ command))
  else return

/-- The loop over the checks, with the commands recorded so far. -/
def acceptTinyFrom (w : Session) (commands : List (Text × Rat)) (g : Guest) (ticks : List Tick) :
    List (Text × Option Text) → Except Refusal (List (Text × Rat) × Guest)
  | [] => return (commands, g)
  | (command, expected) :: rest => do
    let (output, g, ticks) ← answer tinyPrompt g ticks
    let elapsed := w.elapsed commands.length
    checkTiny lower command expected output elapsed
    acceptTinyFrom w (commands ++ [(command, elapsed)]) g ticks rest

/-! ## A boot -/

/-- A row before anything is recorded in it. -/
def blankRow (mode : Mode) : BootRow where
  mode := mode.name
  pass := false
  checks := []
  capabilities := []
  networkExec := 0
  childProcesses := none
  sleepWallSeconds := none
  commands := []
  uartSha256 := []

def isReady (variant : Text) (mode : Mode) (g : Guest) : Bool :=
  if variant = Variant.tinyShell.name then Python.endswith g.text tinyPrompt
  else endsLine (if mode = .shell then text "# " else text "login: ") g.text

/-- Capabilities and networking of a Buildroot shell. -/
def baseline (w : Session) (row : BootRow) (g : Guest) (ticks : List Tick) :
    Except Refusal (BootRow × Guest × List Tick) := do
  let (capabilities, g, ticks) ← buildrootCapabilities g ticks
  let (checked, g, ticks) ← tinyNetworkAndExec lower w false g ticks
  return ({ row with capabilities := capabilities, networkExec := checked.length }, g, ticks)

/-- The checks of a guest that is ready. -/
def exercise (variant : Text) (mode : Mode) (w : Session) (g : Guest) (ticks : List Tick) :
    Except Refusal (BootRow × Guest) := do
  let row := blankRow mode
  match mode with
  | .split =>
    if variant = Variant.tinyShell.name then do
      let (checked, g, _) ← tinyNetworkAndExec lower w true g ticks
      return ({ row with networkExec := checked.length }, g)
    else return (row, g)
  | .shell => do
    let (row, g, _) ← baseline lower w row g ticks
    return (row, g)
  | .payload =>
    if variant = Variant.buildroot.name then do
      let offset := g.raw.length
      let (g, ticks) ← waitFor (fun g => endsLine (text "# ") (outputFrom g offset)) g ticks
      let (row, g, ticks) ← baseline lower w row g ticks
      let (elapsed, g) ← acceptBuildroot w g ticks
      return ({ row with childProcesses := some 100, sleepWallSeconds := some elapsed }, g)
    else do
      let (commands, g) ← acceptTinyFrom lower w [] g ticks tinyChecks
      return ({ row with commands := commands }, g)

variable (sha : Digest Bytes)

/-- The row that is recorded and the log that is saved. -/
def boot (variant : Text) (mode : Mode) (w : Session) : Except Refusal (BootRow × Bytes) := do
  if w.qemu = false then throw .raised
  let (g, ticks) ← waitFor (isReady variant mode) Guest.start w.ticks
  let (row, g) ← exercise lower variant mode w g ticks
  return ({ row with pass := true, uartSha256 := sha.hash g.log }, g.log)

/-! ## What a guest has kept -/

/-- The log is all that was read, and what it says is calm and recorded. -/
structure Kept (g : Guest) : Prop where
  follows : Guest.Follows g
  scanned : Guest.Scanned g

theorem kept_start : Kept Guest.start := ⟨Guest.follows_start, Guest.scanned_start⟩

variable {lower} {sha} {g g' : Guest} {ticks rest : List Tick}

theorem waitFor_kept {ready : Guest → Bool} (hg : Kept g)
    (h : waitFor ready g ticks = .ok (g', rest)) : Kept g' := by
  unfold waitFor at h
  split at h
  · rename_i hwait
    cases h
    exact ⟨Guest.wait_follows hg.follows hwait, Guest.wait_scanned hg.scanned hwait⟩
  · cases h

theorem answer_kept {prompt output : Text} (hg : Kept g)
    (h : answer prompt g ticks = .ok (output, g', rest)) : Kept g' := by
  obtain ⟨⟨next, ticks'⟩, hwait, h⟩ := Python.bind_ok h
  cases h
  exact waitFor_kept hg hwait

theorem networkFrom_ok {prompt : Text} {checked checked' : List Text}
    {commands : List (Text × Text)} (hg : Kept g)
    (h : networkFrom lower prompt checked g ticks commands = .ok (checked', g', rest)) :
    Kept g' ∧ checked'.length = checked.length + commands.length := by
  induction commands generalizing checked g ticks with
  | nil =>
    cases h
    exact ⟨hg, rfl⟩
  | cons command commands ih =>
    obtain ⟨⟨output, next, ticks'⟩, hanswer, h⟩ := Python.bind_ok h
    obtain ⟨_, -, h⟩ := Python.bind_ok h
    obtain ⟨hg', hlength⟩ := ih (answer_kept hg hanswer) h
    refine ⟨hg', ?_⟩
    rw [hlength, List.length_append, List.length_cons, List.length_cons, List.length_nil]
    omega

theorem tinyNetworkAndExec_ok {w : Session} {tiny : Bool} {checked : List Text} (hg : Kept g)
    (h : tinyNetworkAndExec lower w tiny g ticks = .ok (checked, g', rest)) :
    Kept g' ∧ checked.length = if tiny then 3 else 4 := by
  unfold tinyNetworkAndExec at h
  split at h
  · cases h
  · obtain ⟨hg', hlength⟩ := networkFrom_ok hg h
    refine ⟨hg', hlength.trans ?_⟩
    cases tiny <;> rfl

theorem capabilitiesFrom_kept {indices : List Nat} (hg : Kept g)
    (h : capabilitiesFrom g ticks indices = .ok (g', rest)) : Kept g' := by
  induction indices generalizing g ticks with
  | nil =>
    cases h
    exact hg
  | cons index indices ih =>
    obtain ⟨⟨next, ticks'⟩, hwait, h⟩ := Python.bind_ok h
    exact ih (waitFor_kept hg hwait) h

theorem baseline_ok {w : Session} {row row' : BootRow} (hg : Kept g)
    (h : baseline lower w row g ticks = .ok (row', g', rest)) :
    Kept g' ∧ row' = { row with capabilities := Release.capabilityNames, networkExec := 4 } := by
  obtain ⟨⟨capabilities, next, ticks₁⟩, hcapabilities, h⟩ := Python.bind_ok h
  obtain ⟨⟨next', ticks'⟩, hfrom, hcapabilities⟩ := Python.bind_ok hcapabilities
  cases hcapabilities
  obtain ⟨⟨checked, last, ticks₂⟩, hnetwork, h⟩ := Python.bind_ok h
  cases h
  obtain ⟨hg', hlength⟩ := tinyNetworkAndExec_ok (capabilitiesFrom_kept hg hfrom) hnetwork
  refine ⟨hg', ?_⟩
  rw [hlength]
  rfl

/-- What the acceptance of a Buildroot payload rests on. -/
structure Accepted (w : Session) (g : Guest) (elapsed : Rat) : Prop where
  markers : ∀ m ∈ brMarkers, m ∈ g.events
  ordered : (brMarkers.map (eventTime w g)).Pairwise (· ≤ ·)
  measured : elapsed = sleepElapsed w g
  slept : 89 ≤ elapsed

theorem acceptBuildroot_ok {w : Session} {elapsed : Rat} (hg : Kept g)
    (h : acceptBuildroot w g ticks = .ok (elapsed, g')) : Kept g' ∧ Accepted w g' elapsed := by
  obtain ⟨⟨next, ticks'⟩, hwait, h⟩ := Python.bind_ok h
  dsimp only at h
  split at h
  · cases h
  rename_i hmarkers
  split at h
  · cases h
  rename_i hsorted
  split at h
  · cases h
  rename_i hslept
  cases h
  refine ⟨waitFor_kept hg hwait, ?_, ?_, rfl, Rat.not_lt.mp hslept⟩
  · intro m hm
    simp only [Bool.not_eq_true, List.any_eq_false, Bool.not_eq_true', Bool.not_eq_false,
      List.contains_eq_mem, decide_eq_true_eq] at hmarkers
    exact hmarkers m hm
  · have hpairwise := List.pairwise_insertionSort (· ≤ ·) (brMarkers.map (eventTime w g'))
    rwa [← not_not.mp hsorted] at hpairwise

theorem acceptTinyFrom_ok {w : Session} {commands commands' : List (Text × Rat)}
    {checks : List (Text × Option Text)} (hg : Kept g)
    (h : acceptTinyFrom lower w commands g ticks checks = .ok (commands', g')) :
    Kept g' ∧ commands'.map (·.1) = commands.map (·.1) ++ checks.map (·.1) ∧
      ∀ c ∈ commands', c ∈ commands ∨ (c.1 = text "sleep 2" → 9 / 5 ≤ c.2) := by
  induction checks generalizing commands g ticks with
  | nil =>
    cases h
    exact ⟨hg, by simp, fun c hc => .inl hc⟩
  | cons check checks ih =>
    obtain ⟨⟨output, next, ticks'⟩, hanswer, h⟩ := Python.bind_ok h
    obtain ⟨_, hcheck, h⟩ := Python.bind_ok h
    obtain ⟨hg', hnames, hslept⟩ := ih (answer_kept hg hanswer) h
    refine ⟨hg', by simpa using hnames, fun c hc => ?_⟩
    obtain hold | hnew := hslept c hc
    · rcases List.mem_append.mp hold with hmem | hlast
      · exact .inl hmem
      · right
        intro hname
        obtain rfl := List.mem_singleton.mp hlast
        dsimp only at hname ⊢
        rw [checkTiny] at hcheck
        split at hcheck
        · cases hcheck
        split at hcheck
        · cases hcheck
        · rename_i hearly
          exact Rat.not_lt.mp fun hlt => hearly ⟨hname, hlt⟩
    · exact .inr hnew

/-- The checks of a tiny shell, the sleep long enough. -/
theorem acceptTiny_sleeps {w : Session} {commands : List (Text × Rat)} (hg : Kept g)
    (h : acceptTinyFrom lower w [] g ticks tinyChecks = .ok (commands, g')) :
    Kept g' ∧ ∃ c ∈ commands, c.1 = text "sleep 2" ∧ 9 / 5 ≤ c.2 := by
  obtain ⟨hg', hnames, hslept⟩ := acceptTinyFrom_ok hg h
  refine ⟨hg', ?_⟩
  have hmem : text "sleep 2" ∈ commands.map (·.1) := by
    rw [hnames]
    decide
  obtain ⟨c, hc, hname⟩ := List.mem_map.mp hmem
  obtain hnil | hlong := hslept c hc
  · cases hnil
  · exact ⟨c, hc, hname, hlong hname⟩

/-- What a row records of the checks of its mode. -/
def Records (variant : Text) (mode : Mode) (w : Session) (row : BootRow) (g : Guest) : Prop :=
  match mode with
  | .split =>
    row = { blankRow .split with networkExec := if variant = Variant.tinyShell.name then 3 else 0 }
  | .shell =>
    row = { blankRow .shell with capabilities := Release.capabilityNames, networkExec := 4 }
  | .payload =>
    if variant = Variant.buildroot.name then
      ∃ elapsed, Accepted w g elapsed ∧
        row = { blankRow .payload with
          capabilities := Release.capabilityNames
          networkExec := 4
          childProcesses := some 100
          sleepWallSeconds := some elapsed }
    else
      ∃ commands, (∃ c ∈ commands, c.1 = text "sleep 2" ∧ 9 / 5 ≤ c.2) ∧
        row = { blankRow .payload with commands := commands }

theorem exercise_ok {variant : Text} {mode : Mode} {w : Session} {row : BootRow} (hg : Kept g)
    (h : exercise lower variant mode w g ticks = .ok (row, g')) :
    Kept g' ∧ Records variant mode w row g' := by
  cases mode with
  | split =>
    simp only [exercise] at h
    split at h
    · rename_i hvariant
      obtain ⟨⟨checked, next, ticks'⟩, hnetwork, h⟩ := Python.bind_ok h
      cases h
      obtain ⟨hg', hlength⟩ := tinyNetworkAndExec_ok hg hnetwork
      refine ⟨hg', ?_⟩
      rw [Records, if_pos hvariant, hlength]
      rfl
    · rename_i hvariant
      cases h
      refine ⟨hg, ?_⟩
      rw [Records, if_neg hvariant]
      rfl
  | shell =>
    obtain ⟨⟨row', next, ticks'⟩, hbaseline, h⟩ := Python.bind_ok h
    cases h
    exact baseline_ok hg hbaseline
  | payload =>
    simp only [exercise] at h
    split at h
    · rename_i hvariant
      obtain ⟨⟨login, ticks₁⟩, hlogin, h⟩ := Python.bind_ok h
      obtain ⟨⟨row', next, ticks₂⟩, hbaseline, h⟩ := Python.bind_ok h
      obtain ⟨⟨elapsed, last⟩, haccept, h⟩ := Python.bind_ok h
      cases h
      obtain ⟨hg', rfl⟩ := baseline_ok (waitFor_kept hg hlogin) hbaseline
      obtain ⟨hg'', haccepted⟩ := acceptBuildroot_ok hg' haccept
      refine ⟨hg'', ?_⟩
      rw [Records, if_pos hvariant]
      exact ⟨elapsed, haccepted, rfl⟩
    · rename_i hvariant
      obtain ⟨⟨commands, last⟩, haccept, h⟩ := Python.bind_ok h
      cases h
      obtain ⟨hg', hslept⟩ := acceptTiny_sleeps hg haccept
      refine ⟨hg', ?_⟩
      rw [Records, if_neg hvariant]
      exact ⟨commands, hslept, rfl⟩

theorem boot_ok {variant : Text} {mode : Mode} {w : Session} {row : BootRow} {log : Bytes}
    (h : boot lower sha variant mode w = .ok (row, log)) :
    ∃ checked g, Kept g ∧ g.log = log ∧ Records variant mode w checked g ∧
      row = { checked with pass := true, uartSha256 := sha.hash log } := by
  unfold boot at h
  split at h
  · cases h
  obtain ⟨⟨ready, ticks⟩, hready, h⟩ := Python.bind_ok h
  obtain ⟨⟨checked, g⟩, hexercise, h⟩ := Python.bind_ok h
  cases h
  obtain ⟨hg, hrecords⟩ := exercise_ok (waitFor_kept kept_start hready) hexercise
  exact ⟨checked, g, hg, rfl, hrecords, rfl⟩

/-! ## Evidence in the log -/

/-- The markers of a stream stand in it in the order of `brMarkers`, unless the
clock stood still between two of them. -/
def InOrder (w : Session) (log : Bytes) : Prop :=
  brMarkers.Pairwise fun a b =>
    (Guest.recorded log).idxOf a < (Guest.recorded log).idxOf b ∨
      w.clock ((Guest.recorded log).idxOf a) = w.clock ((Guest.recorded log).idxOf b)

/-- What the log of a Buildroot payload says of `BR_COMMAND`. -/
structure Functional (w : Session) (log : Bytes) : Prop where
  marked : ∀ m ∈ brMarkers, m ∈ Guest.recorded log
  ordered : InOrder w log
  slept : w.clock ((Guest.recorded log).idxOf (text "RAPT_SLEEP_BEGIN")) + 89 ≤
    w.clock ((Guest.recorded log).idxOf (text "RAPT_SLEEP_PASS"))

/-- What the saved log of a boot that passed says. -/
structure Evidence (variant : Text) (mode : Mode) (w : Session) (log : Bytes) : Prop where
  calm : ¬ Guest.Alarming log
  functional : variant = Variant.buildroot.name → mode = .payload → Functional w log

theorem Accepted.functional {w : Session} {elapsed : Rat} (h : Accepted w g elapsed)
    (hclock : ∀ m n, m ≤ n → w.clock m ≤ w.clock n)
    (hevents : g.events = Guest.recorded g.log) : Functional w g.log := by
  refine ⟨?_, ?_, ?_⟩
  · rw [← hevents]
    exact h.markers
  · rw [InOrder, ← hevents]
    refine (List.pairwise_map.mp h.ordered).imp ?_
    intro a b hle
    rcases Nat.lt_or_ge (g.events.idxOf a) (g.events.idxOf b) with hlt | hge
    · exact .inl hlt
    · exact .inr (Rat.le_antisymm hle (hclock _ _ hge))
  · have hslept := h.slept
    rw [h.measured, sleepElapsed, eventTime, eventTime, hevents] at hslept
    grind

theorem Records.evidence {variant : Text} {mode : Mode} {w : Session} {row : BootRow}
    (h : Records variant mode w row g) (hg : Kept g)
    (hclock : ∀ m n, m ≤ n → w.clock m ≤ w.clock n) : Evidence variant mode w g.log := by
  have hraw : g.raw = g.log := hg.scanned.log.symm
  refine ⟨hraw ▸ hg.follows.calm, ?_⟩
  rintro rfl rfl
  rw [Records, if_pos rfl] at h
  obtain ⟨elapsed, haccepted, -⟩ := h
  exact haccepted.functional hclock (by rw [hg.follows.events, hraw])

/-- A boot passes on its saved log: neither it nor any of its lines reports a
failure, and a Buildroot payload printed each marker as a line of its own, in
order, with 89 seconds for the sleep. -/
theorem passed_boot_evidence (variant : Text) (mode : Mode) (w : Session)
    (hclock : ∀ m n, m ≤ n → w.clock m ≤ w.clock n) {row : BootRow} {log : Bytes}
    (h : boot lower sha variant mode w = .ok (row, log)) : Evidence variant mode w log := by
  obtain ⟨checked, g, hg, rfl, hrecords, -⟩ := boot_ok h
  exact hrecords.evidence hg hclock

end

/-! ## A Buildroot payload -/

/-- A chunk, and then nothing more for a while. -/
def shown (s : String) : List Tick := [Guest.chunk (ascii s), Guest.chunk []]

/-- The log in of a Buildroot payload and all its checks. -/
def payloadSession : Session where
  qemu := true
  compiled := true
  port := text "8000"
  ticks := ["login: ", "# ", "\nRAPT_BASELINE_STEP_0\n# ", "\nRAPT_BASELINE_STEP_1\n# ",
    "\nRAPT_BASELINE_STEP_2\n# ", "\nRAPT_BASELINE_STEP_3\n# ", "3 packets received\n# ",
    "saved \n# ", "\nRAPT_EXEC_CHILD\nexit 37\n# ", "\nRAPT_NC_PASS\n# ",
    "\nRAPT_ACCEPT_BEGIN\nRAPT_CHILD_COUNT=100\nRAPT_CHILD_PASS\nRAPT_SLEEP_BEGIN\n",
    "RAPT_SLEEP_PASS\nRAPT_ACCEPT_END\n"].flatMap shown
  clock n := 100 * n
  elapsed _ := 2

def payloadBoot : Except Refusal (BootRow × Bytes) :=
  boot (List.map Char.toLower) Release.plainSha Variant.buildroot.name .payload payloadSession

theorem payloadSession_clock (m n : Nat) (h : m ≤ n) :
    payloadSession.clock m ≤ payloadSession.clock n := by
  have hcast : (m : Rat) ≤ n := by exact_mod_cast h
  simp only [payloadSession]
  grind

set_option maxRecDepth 100000 in
theorem payloadBoot_isSome : payloadBoot.toOption.isSome = true := by decide +kernel

theorem passed_boot_evidence_payload :
    ∃ row log, payloadBoot = .ok (row, log) ∧
      Evidence Variant.buildroot.name .payload payloadSession log := by
  obtain ⟨⟨row, log⟩, h⟩ : ∃ r, payloadBoot = .ok r :=
    ⟨_, Python.ok_getD payloadBoot_isSome (blankRow .payload, [])⟩
  exact ⟨row, log, h, passed_boot_evidence _ _ _ payloadSession_clock h⟩

end LinuxBuild.Acceptance
