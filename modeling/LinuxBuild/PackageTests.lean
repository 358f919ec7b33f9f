import LinuxBuild.Acceptance
import LinuxBuild.DistroRuntime
import LinuxBuild.History
import LinuxBuild.ReleaseGate

/-!
# `scripts/test-packages.py`

`test_one` and `main`, with `test` of `distro_runtime.py`. The tests of a run
complete in any order, and the run can stop anywhere. `manifestOf` is what the
manifest in an archive says; what else `extract_and_audit` looks at decides
whether the archive is `audited`.
-/

namespace LinuxBuild.PackageTests

open Crash Release Repository

/-- An archive and what its test meets: the archive when its digest is taken,
when it is extracted and after the boots, and the boots themselves. -/
structure Job where
  archive : Text
  digested : Bytes
  extracted : Bytes
  left : Bytes
  audited : Bool
  guests : Acceptance.Mode → Acceptance.Session
  keygen : Bool
  disks : DistroRuntime.Mode → DistroRuntime.Session

abbrev Logs := List (Text × Bytes)

/-- `archive.name.removesuffix('.tar.gz')`. -/
def stemOf (archive : Text) : Text :=
  if Python.endswith archive (text ".tar.gz") then archive.take (archive.length - 7) else archive

def logName (name mode : Text) : Text := name ++ text "-" ++ mode ++ text ".log"

/-- `variant in DISTROS`. -/
def isDistro (variant : Text) : Bool := variant = Variant.alpine.name || variant = Variant.debian.name

def firmwareModes (variant : Text) : List Acceptance.Mode :=
  if variant = Variant.buildroot.name then [.split, .payload, .shell] else [.split, .payload]

def diskMode : DistroRuntime.Mode → Text
  | .disk => text "disk"
  | .persistence => text "persistence"

section

variable (decimal : Char → Bool) (lower : Text → Text) (sha : Digest Bytes)
variable (manifestOf : Bytes → Option Manifest)

def diskRow (row : DistroRuntime.Row) : BootRow where
  mode := diskMode row.mode
  pass := row.pass
  checks := row.checks
  capabilities := []
  networkExec := 0
  childProcesses := none
  sleepWallSeconds := none
  commands := []
  uartSha256 := sha.hash row.log

/-- The rows and logs up to the first boot that raises, and whether none does. -/
def firmwareBoots (variant : Text) (guests : Acceptance.Mode → Acceptance.Session) :
    List Acceptance.Mode → List (BootRow × Bytes) × Bool
  | [] => ([], true)
  | mode :: modes =>
    match Acceptance.boot lower sha variant mode (guests mode) with
    | .error _ => ([], false)
    | .ok boot =>
      let (boots, done) := firmwareBoots variant guests modes
      (boot :: boots, done)

/-- Both boots of a disk, or nothing. -/
def diskBoots (j : Job) : List (BootRow × Bytes) × Bool :=
  if j.keygen = false then ([], false)
  else
    match DistroRuntime.boot decimal .disk (j.disks .disk),
      DistroRuntime.boot decimal .persistence (j.disks .persistence) with
    | .ok disk, .ok persistence =>
      ([(diskRow sha disk, disk.log), (diskRow sha persistence, persistence.log)], true)
    | _, _ => ([], false)

def boots (variant : Text) (j : Job) : List (BootRow × Bytes) × Bool :=
  if isDistro variant then diskBoots decimal sha j
  else firmwareBoots lower sha variant j.guests (firmwareModes variant)

/-- The row of an archive, and the logs of the boots in it. -/
def testOne (j : Job) : ResultRow × Logs :=
  let row : ResultRow := ⟨j.archive, false, sha.hash j.digested, 0, []⟩
  match if j.audited then manifestOf j.extracted else none with
  | none => (row, [])
  | some m =>
    let (boots, done) := boots decimal lower sha m.variant j
    ({ row with
        memoryMib := m.memoryMib
        boots := boots.map (·.1)
        pass := done && decide (sha.hash j.left = sha.hash j.digested) },
      boots.map fun boot => (logName (stemOf j.archive) boot.1.mode, boot.2))

/-! ## Runs -/

/-- A saved summary, with the logs that lie beside it. -/
inductive Saved where
  | absent
  | torn
  | whole (tests : Document TestResults) (logs : Logs)

/-- `results.json` of the last run, and `test-results.json`. -/
structure State where
  results : Saved
  tests : Saved

/-- A run in a state of the scripts, with the archives in the order in which
their tests complete, and how it prints a summary. -/
structure Run where
  tree : Tree
  completed : List Job
  distinct : (completed.map Job.archive).Nodup
  dump : TestResults → Bytes

def nothing : State := ⟨.absent, .absent⟩

/-- The digests of the scripts. -/
def header (t : Tree) : Except Refusal TestResults := do
  let runner ← fileSha sha t (script "test-packages.py")
  let runtime ← fileSha sha t (script "distro_runtime.py")
  let common ← fileSha sha t (script "release_common.py")
  return ⟨false, some runner, [(text "distro_runtime.py", runtime),
    (text "release_common.py", common)], []⟩

def byArchive (a b : ResultRow) : Prop := a.archive ≤ b.archive

instance : DecidableRel byArchive := fun a b => inferInstanceAs (Decidable (a.archive ≤ b.archive))

def rows (jobs : List Job) : List ResultRow :=
  jobs.map fun j => (testOne decimal lower sha manifestOf j).1

def logs (jobs : List Job) : Logs :=
  jobs.flatMap fun j => (testOne decimal lower sha manifestOf j).2

/-- What is saved when some tests have completed. -/
def partly (r : Run) (blank : TestResults) (done : List Job) : Saved :=
  let summary := { blank with results := rows decimal lower sha manifestOf done }
  .whole ⟨r.dump summary, summary⟩ (logs decimal lower sha manifestOf done)

/-- The rows in order, and whether all passed. -/
def summary (r : Run) (blank : TestResults) : TestResults :=
  let results := (rows decimal lower sha manifestOf r.completed).insertionSort byArchive
  { blank with results := results, pass := results.all (·.pass) }

def finished (r : Run) (blank : TestResults) : Saved :=
  let summary := summary decimal lower sha manifestOf r blank
  .whole ⟨r.dump summary, summary⟩ (logs decimal lower sha manifestOf r.completed)

/-- A file that is written is empty first. -/
def saveResults (saved : Saved) : List (State → State) :=
  [fun s => { s with results := .torn }, fun s => { s with results := saved }]

def saveTests (saved : Saved) : List (State → State) :=
  [fun s => { s with tests := .torn }, fun s => { s with tests := saved }]

/-- `for future in as_completed(futures)`. -/
def collect (r : Run) (blank : TestResults) (done : List Job) : List Job → List (State → State)
  | [] => []
  | j :: jobs =>
    saveResults (partly decimal lower sha manifestOf r blank (done ++ [j])) ++
      collect r blank (done ++ [j]) jobs

def main (r : Run) : Prog State Refusal :=
  if r.completed = [] then .raise .raised
  else
    match header sha r.tree with
    | .error e => .raise e
    | .ok blank =>
      let saved := finished decimal lower sha manifestOf r blank
      .act (fun s => { s with results := .absent }) <|
        acts (collect decimal lower sha manifestOf r blank [] r.completed ++
          saveResults saved ++ saveTests saved) .done

end

/-! ## What a boot that passes records -/

/-- What the log of a boot in a mode shows. -/
inductive Shown (j : Job) (variant : Text) (log : Bytes) : Text → Prop where
  | firmware (mode : Acceptance.Mode)
      (h : Acceptance.Evidence variant mode (j.guests mode) log) : Shown j variant log mode.name
  | disk (mode : DistroRuntime.Mode)
      (h : text "reboot: Restarting system" <:+: Console.textOf log) :
      Shown j variant log (diskMode mode)

variable {decimal : Char → Bool} {lower : Text → Text} {sha : Digest Bytes}
variable {manifestOf : Bytes → Option Manifest}

theorem firmware_mode {variant : Text} {mode : Acceptance.Mode} {w : Acceptance.Session}
    {row : BootRow} {g : Guest} (h : Acceptance.Records variant mode w row g) :
    row.mode = mode.name := by
  cases mode with
  | split =>
    cases h
    rfl
  | shell =>
    cases h
    rfl
  | payload =>
    rw [Acceptance.Records] at h
    split at h
    · obtain ⟨_, -, rfl⟩ := h
      rfl
    · obtain ⟨_, -, rfl⟩ := h
      rfl

theorem firmware_boot_mode {variant : Text} {mode : Acceptance.Mode} {w : Acceptance.Session}
    {boot : BootRow × Bytes} (h : Acceptance.boot lower sha variant mode w = .ok boot) :
    boot.1.mode = mode.name := by
  obtain ⟨checked, g, -, -, hrecords, hrow⟩ := Acceptance.boot_ok h
  rw [hrow]
  change checked.mode = mode.name
  exact firmware_mode hrecords

theorem firmwareBoots_mem {variant : Text} {guests : Acceptance.Mode → Acceptance.Session}
    {modes : List Acceptance.Mode} {boot : BootRow × Bytes}
    (h : boot ∈ (firmwareBoots lower sha variant guests modes).1) :
    ∃ mode ∈ modes, Acceptance.boot lower sha variant mode (guests mode) = .ok boot := by
  induction modes with
  | nil => cases h
  | cons mode modes ih =>
    rw [firmwareBoots] at h
    split at h
    · cases h
    · rename_i first hboot
      rcases List.mem_cons.mp h with rfl | h
      · exact ⟨mode, List.mem_cons_self, hboot⟩
      · obtain ⟨mode', hmode', hboot'⟩ := ih h
        exact ⟨mode', List.mem_cons_of_mem _ hmode', hboot'⟩

/-- The names of the checks that commands settle. -/
def checkNames (steps : List DistroRuntime.Step) : List Text :=
  steps.filterMap fun
    | .check name => some name
    | _ => none

theorem runSteps_checks {hex : Nat → Text} {checks checks' : List Text} {g g' : Guest}
    {ticks rest : List Tick} {steps : List DistroRuntime.Step}
    (h : DistroRuntime.runSteps decimal hex checks g ticks steps = .ok (checks', g', rest)) :
    checks' = checks ++ checkNames steps := by
  induction steps generalizing hex checks g ticks with
  | nil =>
    cases h
    simp [checkNames]
  | cons step steps ih =>
    cases step with
    | check name =>
      rw [ih h, List.append_assoc]
      rfl
    | command =>
      obtain ⟨⟨output, next, ticks'⟩, -, h⟩ := Python.bind_ok h
      exact ih h
    | bootId =>
      obtain ⟨⟨output, next, ticks'⟩, -, h⟩ := Python.bind_ok h
      dsimp only at h
      split at h
      · exact ih h
      · cases h

/-- A disk boot that passes settles every check of its mode, and reboots. -/
theorem disk_boot_ok {mode : DistroRuntime.Mode} {w : DistroRuntime.Session}
    {row : DistroRuntime.Row} (h : DistroRuntime.boot decimal mode w = .ok row) :
    row.mode = mode ∧ row.pass = true ∧ row.checks = distroChecks (diskMode mode) ∧
      text "reboot: Restarting system" <:+: Console.textOf row.log := by
  obtain ⟨⟨checks, g, ticks⟩, hup, h⟩ := Python.bind_ok h
  obtain ⟨g', hreboot, h⟩ := Python.bind_ok h
  cases h
  obtain ⟨seen, t, -, -, hcontains, hlog⟩ :=
    (DistroRuntime.reboot_ok_iff (DistroRuntime.upToReboot_scanned decimal hup)).mp
      ⟨g', hreboot, rfl⟩
  refine ⟨rfl, rfl, ?_, hlog ▸ hcontains⟩
  obtain ⟨⟨ready, ticks₁⟩, -, hup⟩ := Python.bind_ok hup
  dsimp only at hup
  split at hup
  · cases hup
  obtain ⟨⟨prompt, ticks₂⟩, -, hup⟩ := Python.bind_ok hup
  obtain ⟨⟨checks', next, ticks₃⟩, hsteps, hup⟩ := Python.bind_ok hup
  obtain ⟨check, hlogin, hup⟩ := Python.bind_ok hup
  cases hup
  rw [runSteps_checks hsteps]
  unfold DistroRuntime.login at hlogin
  split at hlogin
  · cases hlogin
  split at hlogin
  · cases hlogin
  cases mode with
  | disk =>
    cases hlogin
    rfl
  | persistence =>
    cases hlogin
    rfl

/-- The clock of every session of a test goes forward. -/
def Job.Monotone (j : Job) : Prop :=
  ∀ mode m n, m ≤ n → (j.guests mode).clock m ≤ (j.guests mode).clock n

/-- Every row that is kept has the digest of its log, which shows the boot. -/
theorem boots_mem {variant : Text} {j : Job} {boot : BootRow × Bytes} (hclock : j.Monotone)
    (h : boot ∈ (boots decimal lower sha variant j).1) :
    boot.1.uartSha256 = sha.hash boot.2 ∧ Shown j variant boot.2 boot.1.mode := by
  unfold boots at h
  split at h
  · unfold diskBoots at h
    split at h
    · cases h
    split at h
    · rename_i disk persistence hdisk hpersistence
      obtain ⟨hmode, -, -, hreboots⟩ := disk_boot_ok hdisk
      obtain ⟨hmode', -, -, hreboots'⟩ := disk_boot_ok hpersistence
      simp only [List.mem_cons, List.not_mem_nil, or_false] at h
      rcases h with rfl | rfl
      · refine ⟨rfl, ?_⟩
        rw [diskRow, hmode]
        exact .disk .disk hreboots
      · refine ⟨rfl, ?_⟩
        rw [diskRow, hmode']
        exact .disk .persistence hreboots'
    · cases h
  · obtain ⟨mode, -, hboot⟩ := firmwareBoots_mem h
    obtain ⟨row, log⟩ := boot
    obtain ⟨checked, g, hg, rfl, hrecords, rfl⟩ := Acceptance.boot_ok hboot
    refine ⟨rfl, ?_⟩
    change Shown j variant g.log checked.mode
    rw [firmware_mode hrecords]
    exact .firmware mode (hrecords.evidence hg (hclock mode))

/-- What a test that passes rests on. -/
theorem testOne_pass {j : Job} (h : (testOne decimal lower sha manifestOf j).1.pass = true) :
    ∃ m, j.audited = true ∧ manifestOf j.extracted = some m ∧
      (boots decimal lower sha m.variant j).2 = true ∧ j.left = j.digested ∧
      (testOne decimal lower sha manifestOf j).1 =
        ⟨j.archive, true, sha.hash j.digested, m.memoryMib,
          (boots decimal lower sha m.variant j).1.map (·.1)⟩ ∧
      (testOne decimal lower sha manifestOf j).2 =
        (boots decimal lower sha m.variant j).1.map fun boot =>
          (logName (stemOf j.archive) boot.1.mode, boot.2) := by
  unfold testOne at h ⊢
  split at h
  · cases h
  · rename_i m hm
    split at hm
    · rename_i haudited
      simp only [Bool.and_eq_true, decide_eq_true_eq] at h
      refine ⟨m, haudited, hm, h.1, sha.injective h.2, ?_, rfl⟩
      simp only [h.1, h.2, decide_true, Bool.and_self]
    · cases hm

/-! ## Histories of runs -/

section

variable (decimal lower sha manifestOf)

/-- `test-results.json` is not there, or torn, or what a run saved at its end. -/
def Whole (past : List Run) (s : State) : Prop :=
  s.tests = .absent ∨ s.tests = .torn ∨
    ∃ r ∈ past, r.completed ≠ [] ∧ ∃ blank, header sha r.tree = .ok blank ∧
      s.tests = finished decimal lower sha manifestOf r blank

end

theorem collect_keeps {P : State → Prop} (hP : ∀ s saved, P s → P { s with results := saved })
    {r : Run} {blank : TestResults} {done jobs : List Job} :
    ∀ f ∈ collect decimal lower sha manifestOf r blank done jobs, ∀ s, P s → P (f s) := by
  induction jobs generalizing done with
  | nil => exact fun f hf => absurd hf List.not_mem_nil
  | cons j jobs ih =>
    intro f hf
    rcases List.mem_append.mp hf with hf | hf
    · simp only [saveResults, List.mem_cons, List.not_mem_nil, or_false] at hf
      rcases hf with rfl | rfl
      · exact fun s => hP s _
      · exact fun s => hP s _
    · exact ih f hf

theorem main_whole (past : List Run) (r : Run) (s : State)
    (h : Whole decimal lower sha manifestOf past s) :
    Safe (Whole decimal lower sha manifestOf (past ++ [r])) (main decimal lower sha manifestOf r) s := by
  have hmore : Whole decimal lower sha manifestOf (past ++ [r]) s := by
    rcases h with h | h | ⟨r', hr', h⟩
    · exact .inl h
    · exact .inr (.inl h)
    · exact .inr (.inr ⟨r', List.mem_append_left _ hr', h⟩)
  unfold main
  split
  · exact safe_raise hmore
  rename_i hjobs
  split
  · exact safe_raise hmore
  rename_i blank hheader
  refine safe_act hmore (safe_acts hmore ?_ fun s hs => safe_done hs)
  intro f hf s hs
  simp only [List.mem_append, saveResults, saveTests, List.mem_cons, List.not_mem_nil,
    or_false] at hf
  rcases hf with (hf | rfl | rfl) | rfl | rfl
  · exact collect_keeps (fun s saved hs => hs) f hf s hs
  · exact hs
  · exact hs
  · exact .inr (.inl rfl)
  · exact .inr (.inr ⟨r, List.mem_append_right _ List.mem_cons_self, hjobs, blank, hheader, rfl⟩)

theorem history_whole (runs : List (Run × Nat)) :
    Whole decimal lower sha manifestOf (runs.map (·.1))
      (history (main decimal lower sha manifestOf) nothing runs) :=
  history_induction (.inl rfl) main_whole runs

/-- A run that is not stopped saves its summary. -/
theorem run_tests {r : Run} {blank : TestResults} (hjobs : r.completed ≠ [])
    (h : header sha r.tree = .ok blank) (s : State) :
    (run (main decimal lower sha manifestOf r) s).2.tests =
      finished decimal lower sha manifestOf r blank := by
  rw [main, if_neg hjobs, h]
  dsimp only
  rw [run, run_acts, applyAll_append]
  rfl

/-! ## The summary -/

instance : Std.Total byArchive := ⟨fun a b => le_total a.archive b.archive⟩

instance : IsTrans ResultRow byArchive := ⟨fun _ _ _ hab hbc => le_trans hab hbc⟩

theorem summary_mem {r : Run} {blank : TestResults} {row : ResultRow} :
    row ∈ (summary decimal lower sha manifestOf r blank).results ↔
      ∃ j ∈ r.completed, (testOne decimal lower sha manifestOf j).1 = row := by
  rw [summary, List.mem_insertionSort, rows, List.mem_map]

theorem testOne_archive (j : Job) : (testOne decimal lower sha manifestOf j).1.archive = j.archive := by
  unfold testOne
  split <;> rfl

/-- The summary does not depend on the order in which the tests complete. -/
theorem summary_order {r r' : Run} (h : r.completed.Perm r'.completed) (blank : TestResults) :
    summary decimal lower sha manifestOf r blank = summary decimal lower sha manifestOf r' blank := by
  have hresults : (rows decimal lower sha manifestOf r.completed).insertionSort byArchive =
      (rows decimal lower sha manifestOf r'.completed).insertionSort byArchive := by
    apply List.Perm.eq_of_pairwise _ (List.pairwise_insertionSort byArchive _)
      (List.pairwise_insertionSort byArchive _)
    · exact ((List.perm_insertionSort byArchive _).trans (h.map _)).trans
        (List.perm_insertionSort byArchive _).symm
    · intro a b ha hb hab hba
      rw [List.mem_insertionSort, rows, List.mem_map] at ha hb
      obtain ⟨j, hj, rfl⟩ := ha
      obtain ⟨j', hj', rfl⟩ := hb
      have heq := le_antisymm hab hba
      rw [testOne_archive, testOne_archive] at heq
      rw [List.inj_on_of_nodup_map r.distinct hj (h.mem_iff.mpr hj') heq]
  rw [summary, summary, hresults]

end LinuxBuild.PackageTests
