import LinuxBuild.PackageTests

/-!
# Test runs and the release gate

What an accepted release says of the tests, and what tests that passed leave to
the gate.
-/

namespace LinuxBuild.PackageTests

open Crash Release Repository

variable {decimal : Char → Bool} {lower : Text → Text} {sha : Digest Bytes}
variable {manifestOf : Bytes → Option Manifest}

/-! ## A release that is accepted -/

/-- What the gate takes from the tests: the archive as it is was there when the test
began and at its end, it was audited, and each boot path has a log of this kernel.
The log shows the boot, unless the archive was exchanged in between and put back, or
the clock of a guest went back. -/
structure Tested (j : Job) (package : Package) (archive : Document Manifest) (logs : Logs) :
    Prop where
  bytes : j.digested = archive.bytes ∧ j.left = archive.bytes
  audited : j.audited = true
  booted : ∀ mode ∈ modes package.variant, ∃ log,
    logs.lookup (logName package.name mode) = some log ∧ ShowsVersion archive.value log ∧
      (j.extracted = j.digested → j.Monotone → Shown j package.variant.name log mode)

theorem tested_of_ok {j : Job} {t : Tree} {dist : Dist} {package : Package}
    {archive : Document Manifest} (hread : manifestOf archive.bytes = some archive.value)
    (h : ArchiveOk sha t dist package archive (testOne decimal lower sha manifestOf j).1) :
    Tested j package archive dist.logs := by
  obtain ⟨m, haudited, hm, -, hleft, hrow, -⟩ := testOne_pass h.passed
  have hdigested : j.digested = archive.bytes := by
    apply sha.injective
    rw [← h.digest, hrow]
  refine ⟨⟨hdigested, hleft.trans hdigested⟩, haudited, fun mode hmode => ?_⟩
  obtain ⟨b, hb, rfl⟩ := List.mem_map.mp ((h.modes mode).mpr hmode)
  obtain ⟨log, hlog, hsha, hversion⟩ := (h.boots b hb).log
  refine ⟨log, hlog, hversion, fun hstill hclock => ?_⟩
  obtain rfl : archive.value = m := by
    rw [hstill, hdigested, hread] at hm
    exact Option.some.inj hm
  rw [hrow] at hb
  obtain ⟨boot, hboot, rfl⟩ := List.mem_map.mp hb
  obtain ⟨huart, hshown⟩ := boots_mem hclock hboot
  rw [huart] at hsha
  obtain rfl := sha.injective hsha
  rwa [h.variant] at hshown

/-- Over any history of test runs, each stopped anywhere and with its tests
completing in any order: a release that is accepted was tested by one of them
to its end, every package of the matrix in every mode, with the archive that is
there now. -/
theorem accepted_release_tested {toml : Bytes → Option Preset} {t : Tree} {dist : Dist}
    {write : Bool} {record : Record} (runs : List (Run × Nat))
    (hread : ∀ name archive, dist.archives.lookup name = some archive →
      manifestOf archive.bytes = some archive.value)
    (hsaved : (history (main decimal lower sha manifestOf) nothing runs).tests =
      .whole dist.tests dist.logs)
    (h : Release.main toml sha write t dist = .ok record) :
    ∃ r ∈ runs.map (·.1), ∃ packages, expected toml t = some packages ∧
      (∀ name, name ∈ r.completed.map Job.archive ↔ name ∈ packages.map (·.1)) ∧
      ∀ item ∈ packages, ∃ j ∈ r.completed, ∃ archive, j.archive = item.1 ∧
        dist.archives.lookup item.1 = some archive ∧ Tested j item.2 archive dist.logs := by
  have hwrite : ∃ record', Release.main toml sha true t dist = .ok record' := by
    cases write with
    | true => exact ⟨record, h⟩
    | false =>
      rw [main_check] at h
      obtain ⟨record', hrecord', -⟩ := Python.bind_ok h
      exact ⟨record', hrecord'⟩
  obtain ⟨record', hwrite⟩ := hwrite
  obtain ⟨packages, archives, source, hgate, harchives, -, -⟩ := main_write_eq_ok.mp hwrite
  obtain habsent | htorn | ⟨r, hr, -, blank, -, hfinished⟩ :=
    @history_whole decimal lower sha manifestOf runs
  · rw [habsent] at hsaved
    cases hsaved
  · rw [htorn] at hsaved
    cases hsaved
  rw [hfinished, finished] at hsaved
  obtain ⟨hdoc, hlogs⟩ := Saved.whole.inj hsaved
  have hresults : dist.tests.value = summary decimal lower sha manifestOf r blank := by
    rw [← hdoc]
  refine ⟨r, hr, packages, hgate.matrix, fun name => ?_, fun item hitem => ?_⟩
  · rw [← hgate.covered, hresults, List.mem_map, List.mem_map]
    constructor
    · rintro ⟨j, hj, rfl⟩
      exact ⟨_, summary_mem.mpr ⟨j, hj, rfl⟩, testOne_archive j⟩
    · rintro ⟨row, hrow, rfl⟩
      obtain ⟨j, hj, rfl⟩ := summary_mem.mp hrow
      exact ⟨j, hj, (testOne_archive j).symm⟩
  · obtain ⟨row, hrow⟩ := checkArchives_ok sha harchives item hitem
    obtain ⟨archive, result, harchive, hresult, hok, -⟩ := checkArchive_eq_ok.mp hrow
    have hmem := Python.mem_of_dictGet hresult
    obtain ⟨result', hresult', heq⟩ := List.mem_map.mp hmem
    obtain ⟨hname, rfl⟩ := Prod.mk.inj heq
    rw [hresults] at hresult'
    obtain ⟨j, hj, rfl⟩ := summary_mem.mp hresult'
    exact ⟨j, hj, archive, (testOne_archive j).symm.trans hname, harchive,
      tested_of_ok (hread _ _ harchive) hok⟩

/-! ## The names of logs -/

theorem mode_plain (mode : Acceptance.Mode) : '-' ∉ mode.name := by cases mode <;> decide

theorem diskMode_plain (mode : DistroRuntime.Mode) : '-' ∉ diskMode mode := by
  cases mode <;> decide

theorem logName_inj {name name' mode mode' : Text} (hmode : '-' ∉ mode) (hmode' : '-' ∉ mode')
    (h : logName name mode = logName name' mode') : name = name' ∧ mode = mode' := by
  have hfront : name ++ text "-" ++ mode = name' ++ text "-" ++ mode' := List.append_cancel_right h
  rw [List.append_assoc, List.append_assoc, List.append_eq_append_iff] at hfront
  -- the dash before the mode is the last one
  have hlast : ∀ {more m m' : Text}, '-' ∉ m → text "-" ++ m = more ++ (text "-" ++ m') →
      more = [] ∧ m = m' := by
    intro more m m' hm heq
    cases more with
    | nil => exact ⟨rfl, List.append_cancel_left heq⟩
    | cons c more =>
      have htail : m = more ++ (text "-" ++ m') := (List.cons.inj heq).2
      refine absurd ?_ hm
      rw [htail]
      simp [text]
  rcases hfront with ⟨more, hname, heq⟩ | ⟨more, hname, heq⟩
  · obtain ⟨rfl, rfl⟩ := hlast hmode heq
    exact ⟨by rw [hname, List.append_nil], rfl⟩
  · obtain ⟨rfl, rfl⟩ := hlast hmode' heq
    exact ⟨by rw [hname, List.append_nil], rfl⟩

theorem stemOf_archiveName (package : Package) : stemOf (archiveName package) = package.name := by
  have hends : Python.endswith (archiveName package) (text ".tar.gz") = true :=
    List.isSuffixOf_iff_suffix.mpr ⟨package.name, rfl⟩
  have hlength : (archiveName package).length - 7 = package.name.length := by
    rw [archiveName, List.length_append]
    exact Nat.add_sub_cancel _ 7
  rw [stemOf, if_pos hends, hlength, archiveName, List.take_left]

theorem boots_plain {variant : Text} {j : Job} {boot : BootRow × Bytes}
    (h : boot ∈ (boots decimal lower sha variant j).1) : '-' ∉ boot.1.mode := by
  unfold boots at h
  split at h
  · unfold diskBoots at h
    split at h
    · cases h
    split at h
    · simp only [List.mem_cons, List.not_mem_nil, or_false] at h
      rcases h with rfl | rfl
      · exact diskMode_plain _
      · exact diskMode_plain _
    · cases h
  · obtain ⟨mode, -, hboot⟩ := firmwareBoots_mem h
    rw [firmware_boot_mode hboot]
    exact mode_plain mode

/-- A mode is booted once. -/
theorem boots_once {variant : Text} {j : Job} {boot boot' : BootRow × Bytes}
    (h : boot ∈ (boots decimal lower sha variant j).1)
    (h' : boot' ∈ (boots decimal lower sha variant j).1) (hmode : boot.1.mode = boot'.1.mode) :
    boot = boot' := by
  unfold boots at h h'
  split at h
  · rename_i hdistro
    rw [if_pos hdistro] at h'
    unfold diskBoots at h h'
    split at h
    · cases h
    rename_i hkeygen
    rw [if_neg hkeygen] at h'
    split at h
    · rename_i disk persistence hdisk hpersistence
      rw [hdisk, hpersistence] at h'
      have hne : (diskRow sha disk).mode ≠ (diskRow sha persistence).mode := by
        change diskMode disk.mode ≠ diskMode persistence.mode
        rw [(disk_boot_ok hdisk).1, (disk_boot_ok hpersistence).1]
        decide
      simp only [List.mem_cons, List.not_mem_nil, or_false] at h h'
      rcases h with rfl | rfl <;> rcases h' with rfl | rfl
      · rfl
      · exact absurd hmode hne
      · exact absurd hmode.symm hne
      · rfl
    · cases h
  · rename_i hdistro
    rw [if_neg hdistro] at h'
    obtain ⟨mode, -, hboot⟩ := firmwareBoots_mem h
    obtain ⟨mode', -, hboot'⟩ := firmwareBoots_mem h'
    rw [firmware_boot_mode hboot, firmware_boot_mode hboot'] at hmode
    obtain rfl : mode = mode' := by
      revert hmode
      cases mode <;> cases mode' <;> decide
    exact Except.ok.inj (hboot.symm.trans hboot')

/-! ## Rows and the gate -/

theorem isDistro_name (variant : Variant) : isDistro variant.name = variant.isDistro := by
  cases variant <;> decide

theorem firmwareBoots_done {variant : Text} {guests : Acceptance.Mode → Acceptance.Session}
    {modes : List Acceptance.Mode} (h : (firmwareBoots lower sha variant guests modes).2 = true) :
    (firmwareBoots lower sha variant guests modes).1.map (·.1.mode) =
      modes.map Acceptance.Mode.name := by
  induction modes with
  | nil => rfl
  | cons mode modes ih =>
    rw [firmwareBoots] at h ⊢
    split at h
    · cases h
    · rename_i boot hboot
      rw [List.map_cons, List.map_cons, ih h, firmware_boot_mode hboot]

/-- A test that comes to its end has booted every mode. -/
theorem boots_done {variant : Variant} {j : Job}
    (h : (boots decimal lower sha variant.name j).2 = true) :
    (boots decimal lower sha variant.name j).1.map (·.1.mode) = modes variant := by
  unfold boots at h ⊢
  rw [isDistro_name] at h ⊢
  split at h
  · rename_i hdistro
    rw [if_pos hdistro]
    unfold diskBoots at h ⊢
    split at h
    · cases h
    rename_i hkeygen
    rw [if_neg hkeygen]
    split at h
    · rename_i disk persistence hdisk hpersistence
      change [diskMode disk.mode, diskMode persistence.mode] = modes variant
      rw [(disk_boot_ok hdisk).1, (disk_boot_ok hpersistence).1]
      cases variant with
      | tinyShell | buildroot => cases hdistro
      | alpine | debian => rfl
    · cases h
  · rename_i hdistro
    rw [if_neg hdistro, firmwareBoots_done h]
    cases variant with
    | tinyShell | buildroot => rfl
    | alpine | debian => exact absurd rfl hdistro

variable {dist : Dist} {package : Package} {m : Manifest}

theorem split_ne_payload : Acceptance.Mode.split.name ≠ Acceptance.Mode.payload.name := by decide

theorem split_ne_shell : Acceptance.Mode.split.name ≠ Acceptance.Mode.shell.name := by decide

theorem payload_ne_shell : Acceptance.Mode.payload.name ≠ Acceptance.Mode.shell.name := by decide

theorem capabilityNames_all : capabilityNames.all capabilityNames.contains = true := by decide

/-- The row of a firmware boot has all that the gate asks of it but the version
of the kernel. -/
theorem firmware_bootOk {mode : Acceptance.Mode} {w : Acceptance.Session} {row : BootRow}
    {log : Bytes} (h : Acceptance.boot lower sha package.variant.name mode w = .ok (row, log))
    (hdistro : package.variant.isDistro = false)
    (hlog : dist.logs.lookup (logName package.name row.mode) = some log)
    (hversion : ShowsVersion m log) : BootOk sha dist package m row := by
  obtain ⟨checked, g, -, rfl, hrecords, rfl⟩ := Acceptance.boot_ok h
  have hlog' : ∃ log, dist.logs.lookup (logName package.name checked.mode) = some log ∧
      sha.hash log = sha.hash g.log ∧ ShowsVersion m log := ⟨_, hlog, rfl, hversion⟩
  have hnot : ¬ package.variant.isDistro = true := by
    rw [hdistro]
    exact Bool.false_ne_true
  clear hlog h
  cases mode with
  | split =>
    cases hrecords
    refine ⟨rfl, fun h => absurd h hnot, ?_, hlog', ?_, ?_, ?_⟩
    · rintro ⟨-, hvariant⟩
      change (if package.variant.name = Variant.tinyShell.name then 3 else 0) = 3
      rw [hvariant, if_pos rfl]
    · rintro ⟨hmode | hmode, -⟩
      · exact absurd hmode split_ne_payload
      · exact absurd hmode split_ne_shell
    · exact fun h => absurd h.1 split_ne_payload
    · exact fun h => absurd h.1 split_ne_payload
  | shell =>
    cases hrecords
    refine ⟨rfl, fun h => absurd h hnot, ?_, hlog', ?_, ?_, ?_⟩
    · exact fun h => absurd h.1.symm split_ne_shell
    · exact fun _ => ⟨capabilityNames_all, rfl⟩
    · exact fun h => absurd h.1.symm payload_ne_shell
    · exact fun h => absurd h.1.symm payload_ne_shell
  | payload =>
    rw [Acceptance.Records] at hrecords
    split at hrecords
    · rename_i hbuildroot
      obtain ⟨elapsed, haccepted, rfl⟩ := hrecords
      refine ⟨rfl, fun h => absurd h hnot, ?_, hlog', ?_, ?_, ?_⟩
      · exact fun h => absurd h.1.symm split_ne_payload
      · exact fun _ => ⟨capabilityNames_all, rfl⟩
      · exact fun _ => ⟨rfl, decide_eq_true haccepted.slept⟩
      · rintro ⟨-, hvariant⟩
        rw [hvariant] at hbuildroot
        exact absurd hbuildroot (by decide)
    · rename_i hbuildroot
      obtain ⟨commands, ⟨c, hc, hname, hslept⟩, rfl⟩ := hrecords
      refine ⟨rfl, fun h => absurd h hnot, ?_, hlog', ?_, ?_, ?_⟩
      · exact fun h => absurd h.1.symm split_ne_payload
      · exact fun h => absurd (congrArg Variant.name h.2) hbuildroot
      · exact fun h => absurd (congrArg Variant.name h.2) hbuildroot
      · intro _
        rw [List.any_eq_true]
        refine ⟨c, hc, ?_⟩
        rw [Bool.and_eq_true]
        exact ⟨decide_eq_true hname, decide_eq_true hslept⟩

/-- So has the row of a disk boot. -/
theorem disk_bootOk {mode : DistroRuntime.Mode} {w : DistroRuntime.Session}
    {row : DistroRuntime.Row} (h : DistroRuntime.boot decimal mode w = .ok row)
    (hdistro : package.variant.isDistro = true)
    (hlog : dist.logs.lookup (logName package.name (diskRow sha row).mode) = some row.log)
    (hversion : ShowsVersion m row.log) : BootOk sha dist package m (diskRow sha row) := by
  obtain ⟨hmode, hpass, hchecks, -⟩ := disk_boot_ok h
  have hfirmware : ∀ v : Variant, v.isDistro = false → package.variant ≠ v := by
    rintro v hv rfl
    rw [hdistro] at hv
    cases hv
  have hmode' : (diskRow sha row).mode = diskMode mode := congrArg diskMode hmode
  refine ⟨hpass, ?_, ?_, ⟨_, hlog, rfl, hversion⟩, ?_, ?_, ?_⟩
  · intro _
    change (distroChecks (diskRow sha row).mode).all row.checks.contains = true
    rw [hmode', hchecks, List.all_eq_true]
    exact fun check hcheck => List.contains_iff_mem.mpr hcheck
  · exact fun h => absurd h.2 (hfirmware _ rfl)
  · exact fun h => absurd h.2 (hfirmware _ rfl)
  · exact fun h => absurd h.2 (hfirmware _ rfl)
  · exact fun h => absurd h.2 (hfirmware _ rfl)

theorem boots_bootOk {j : Job} {boot : BootRow × Bytes}
    (h : boot ∈ (boots decimal lower sha package.variant.name j).1)
    (hlog : dist.logs.lookup (logName package.name boot.1.mode) = some boot.2)
    (hversion : ShowsVersion m boot.2) : BootOk sha dist package m boot.1 := by
  unfold boots at h
  rw [isDistro_name] at h
  split at h
  · rename_i hdistro
    unfold diskBoots at h
    split at h
    · cases h
    split at h
    · rename_i disk persistence hdisk hpersistence
      simp only [List.mem_cons, List.not_mem_nil, or_false] at h
      rcases h with rfl | rfl
      · exact disk_bootOk hdisk hdistro hlog hversion
      · exact disk_bootOk hpersistence hdistro hlog hversion
    · cases h
  · rename_i hdistro
    obtain ⟨mode, -, hboot⟩ := firmwareBoots_mem h
    exact firmware_bootOk hboot (Bool.eq_false_iff.mpr hdistro) hlog hversion

/-! ## What is left to the gate -/

section

variable (decimal lower sha manifestOf)

/-- A release directory after a run that came to its end: its test results and
logs, and the archives as they were tested. -/
structure Collected (r : Run) (dist : Dist) : Prop where
  saved : ∃ blank, header sha r.tree = .ok blank ∧
    finished decimal lower sha manifestOf r blank = .whole dist.tests dist.logs
  names : ∀ name, name ∈ dist.archives.map (·.1) ↔ name ∈ r.completed.map Job.archive
  archives : ∀ j ∈ r.completed, ∃ archive, dist.archives.lookup j.archive = some archive ∧
    j.digested = archive.bytes ∧ j.extracted = archive.bytes ∧
    manifestOf archive.bytes = some archive.value

end

/-- What the gate asks of a package, beyond the tests. -/
structure PackageReady (sha : Digest Bytes) (t : Tree) (dist : Dist) (package : Package)
    (archive : Document Manifest) : Prop where
  preset : archive.value.preset = stem package.preset
  bits : Python.int (archBits package.cfg) = some archive.value.bits
  variant : archive.value.variant = package.variant.name
  kernelVersion : archive.value.kernelVersion = package.cfg.kernelVersion
  kernelHz : archive.value.kernelHz = 100
  memory : archive.value.memoryMib = 1024
  presetCurrent : ∃ h, fileSha sha t package.preset = .ok h ∧
    archive.value.buildInputs.lookup package.preset = some h
  inputs : ∀ row ∈ archive.value.buildInputs, (t.file? row.1).map sha.hash = some row.2
  versions : ∀ mode ∈ modes package.variant, ∀ log,
    dist.logs.lookup (logName package.name mode) = some log → ShowsVersion archive.value log

def runnerFiles : List Path :=
  [script "test-packages.py", script "distro_runtime.py", script "release_common.py"]

theorem header_eq_ok {t : Tree} {blank : TestResults} :
    header sha t = .ok blank ↔ ∃ runner runtime common,
      fileSha sha t (script "test-packages.py") = .ok runner ∧
      fileSha sha t (script "distro_runtime.py") = .ok runtime ∧
      fileSha sha t (script "release_common.py") = .ok common ∧
      blank = ⟨false, some runner, [(text "distro_runtime.py", runtime),
        (text "release_common.py", common)], []⟩ := by
  simp only [header, Python.bind_eq_ok]
  constructor
  · rintro ⟨runner, hrunner, runtime, hruntime, common, hcommon, h⟩
    exact ⟨runner, runtime, common, hrunner, hruntime, hcommon, (Except.ok.inj h).symm⟩
  · rintro ⟨runner, runtime, common, hrunner, hruntime, hcommon, rfl⟩
    exact ⟨runner, hrunner, runtime, hruntime, common, hcommon, rfl⟩

theorem fileSha_same {t t' : Tree} {p : Path} {h : Hash} (hsha : fileSha sha t p = .ok h) :
    fileSha sha t' p = .ok h ↔ ∃ content, t'.file? p = some content ∧ t.file? p = some content := by
  rw [fileSha_eq_ok] at hsha ⊢
  obtain ⟨content, hcontent, rfl⟩ := Option.map_eq_some_iff.mp hsha
  rw [Option.map_eq_some_iff]
  constructor
  · rintro ⟨content', hcontent', heq⟩
    obtain rfl := sha.injective heq
    exact ⟨content', hcontent', hcontent⟩
  · rintro ⟨content', hcontent', heq⟩
    rw [hcontent] at heq
    cases heq
    exact ⟨content, hcontent', rfl⟩

/-- The gate finds the scripts that a run recorded exactly when they have not
changed. -/
theorem scripts_iff {t t' : Tree} {blank : TestResults} (h : header sha t = .ok blank) :
    ((∃ runner, fileSha sha t' (script "test-packages.py") = .ok runner ∧
        blank.runnerSha256 = some runner) ∧
      ∃ runtime common, fileSha sha t' (script "distro_runtime.py") = .ok runtime ∧
        fileSha sha t' (script "release_common.py") = .ok common ∧
        Python.dictEq blank.dependencies [(text "distro_runtime.py", runtime),
          (text "release_common.py", common)] = true) ↔
      ∀ p ∈ runnerFiles, ∃ content, t'.file? p = some content ∧ t.file? p = some content := by
  obtain ⟨runner, runtime, common, hrunner, hruntime, hcommon, rfl⟩ := header_eq_ok.mp h
  have hdict : ∀ runtime' common', Python.dictEq [(text "distro_runtime.py", runtime),
      (text "release_common.py", common)] [(text "distro_runtime.py", runtime'),
        (text "release_common.py", common')] = true ↔ runtime' = runtime ∧ common' = common := by
    intro runtime' common'
    rw [Python.dictEq_iff]
    constructor
    · intro hsame
      exact ⟨(Option.some.inj (hsame (text "distro_runtime.py"))).symm,
        (Option.some.inj (hsame (text "release_common.py"))).symm⟩
    · rintro ⟨rfl, rfl⟩ key
      rfl
  simp only [runnerFiles, List.forall_mem_cons, List.not_mem_nil, false_imp_iff, implies_true,
    and_true, ← fileSha_same hrunner, ← fileSha_same hruntime, ← fileSha_same hcommon, hdict]
  constructor
  · rintro ⟨⟨_, hrunner', heq⟩, _, _, hruntime', hcommon', rfl, rfl⟩
    cases heq
    exact ⟨hrunner', hruntime', hcommon'⟩
  · rintro ⟨hrunner', hruntime', hcommon'⟩
    exact ⟨⟨_, hrunner', rfl⟩, _, _, hruntime', hcommon', rfl, rfl⟩

theorem testOne_logs {j : Job} {name : Text} {log : Bytes}
    (h : (name, log) ∈ (testOne decimal lower sha manifestOf j).2) :
    ∃ m boot, manifestOf j.extracted = some m ∧ boot ∈ (boots decimal lower sha m.variant j).1 ∧
      name = logName (stemOf j.archive) boot.1.mode ∧ log = boot.2 := by
  unfold testOne at h
  split at h
  · cases h
  · rename_i m hm
    split at hm
    · obtain ⟨boot, hboot, heq⟩ := List.mem_map.mp h
      obtain ⟨rfl, rfl⟩ := Prod.mk.inj heq
      exact ⟨m, boot, hm, hboot, rfl, rfl⟩
    · cases hm

/-- No two boots of a run write one log. -/
theorem logs_lookup {jobs : List Job} (hdistinct : (jobs.map Job.archive).Nodup)
    (hnames : ∀ j ∈ jobs, ∃ package, j.archive = archiveName package) {j : Job} (hj : j ∈ jobs)
    {m : Manifest} (hm : manifestOf j.extracted = some m)
    (hlogs : (testOne decimal lower sha manifestOf j).2 =
      (boots decimal lower sha m.variant j).1.map fun boot =>
        (logName (stemOf j.archive) boot.1.mode, boot.2))
    {boot : BootRow × Bytes} (hboot : boot ∈ (boots decimal lower sha m.variant j).1) :
    (logs decimal lower sha manifestOf jobs).lookup (logName (stemOf j.archive) boot.1.mode) =
      some boot.2 := by
  apply Python.lookup_of_unique
  · rw [logs, List.mem_flatMap]
    refine ⟨j, hj, ?_⟩
    rw [hlogs]
    exact List.mem_map_of_mem hboot
  · intro log hlog
    rw [logs, List.mem_flatMap] at hlog
    obtain ⟨j', hj', hlog⟩ := hlog
    obtain ⟨m', boot', hm', hboot', hname, rfl⟩ := testOne_logs hlog
    obtain ⟨hstem, hmode⟩ := logName_inj (boots_plain hboot) (boots_plain hboot') hname
    obtain ⟨package, hpackage⟩ := hnames j hj
    obtain ⟨package', hpackage'⟩ := hnames j' hj'
    rw [hpackage, hpackage', stemOf_archiveName, stemOf_archiveName] at hstem
    have harchive : j'.archive = j.archive := by
      rw [hpackage, hpackage', archiveName, archiveName, hstem]
    obtain rfl := List.inj_on_of_nodup_map hdistinct hj' hj harchive
    cases hm.symm.trans hm'
    rw [boots_once hboot' hboot hmode.symm]

theorem expected_archiveName {toml : Bytes → Option Preset} {t : Tree}
    {packages : List (Text × Package)} (h : expected toml t = some packages) :
    ∀ item ∈ packages, item.1 = archiveName item.2 := by
  obtain ⟨rows, _, h⟩ := Option.bind_eq_some_iff.mp h
  cases h
  intro item hitem
  obtain ⟨key, -, hitem⟩ := List.mem_filterMap.mp hitem
  obtain ⟨package, hget, rfl⟩ := Option.map_eq_some_iff.mp hitem
  obtain ⟨package', -, heq⟩ := List.mem_map.mp (Python.mem_of_dictGet hget)
  obtain ⟨rfl, rfl⟩ := Prod.mk.inj heq
  rfl

theorem checkArchives_of {t : Tree} {packages : List (Text × Package)}
    (h : ∀ item ∈ packages, ∃ row, checkArchive sha t dist item.1 item.2 = .ok row) :
    ∃ archives, checkArchives sha t dist packages = .ok archives := by
  induction packages with
  | nil => exact ⟨[], rfl⟩
  | cons item packages ih =>
    rw [List.forall_mem_cons] at h
    obtain ⟨row, hrow⟩ := h.1
    obtain ⟨rest, hrest⟩ := ih h.2
    exact ⟨row :: rest, checkArchives_eq_ok.mpr (.cons hrow (checkArchives_eq_ok.mp hrest))⟩

/-- The row of a test that passed, with an archive that is ready. -/
theorem archiveOk_of_ready {t : Tree} {r : Run} {archive : Document Manifest} {j : Job}
    (hj : j ∈ r.completed) (hnames : ∀ j ∈ r.completed, ∃ package, j.archive = archiveName package)
    (harchive : j.archive = archiveName package) (hdigested : j.digested = archive.bytes)
    (hextracted : j.extracted = archive.bytes) (hread : manifestOf archive.bytes = some archive.value)
    (hlogs : dist.logs = logs decimal lower sha manifestOf r.completed)
    (hpass : (testOne decimal lower sha manifestOf j).1.pass = true)
    (hready : PackageReady sha t dist package archive) :
    ArchiveOk sha t dist package archive (testOne decimal lower sha manifestOf j).1 := by
  obtain ⟨m, -, hm, hdone, -, hrow, hjlogs⟩ := testOne_pass hpass
  obtain rfl : archive.value = m := by
    rw [hextracted, hread] at hm
    exact Option.some.inj hm
  have hmodes : (boots decimal lower sha archive.value.variant j).1.map (·.1.mode) =
      modes package.variant := by
    rw [hready.variant] at hdone ⊢
    exact boots_done hdone
  have hrowModes : (testOne decimal lower sha manifestOf j).1.boots.map BootRow.mode =
      modes package.variant := by
    rw [hrow, ← hmodes, List.map_map]
    rfl
  refine
    { passed := hpass, digest := by rw [hrow, hdigested], preset := hready.preset
      bits := hready.bits, variant := hready.variant, kernelVersion := hready.kernelVersion
      kernelHz := hready.kernelHz, memory := by rw [hrow]; exact ⟨rfl, hready.memory⟩
      presetCurrent := hready.presetCurrent, inputs := hready.inputs
      modeCount := by rw [← hrowModes, List.length_map]
      modes := fun mode => by rw [hrowModes], boots := ?_ }
  intro b hb
  rw [hrow] at hb
  obtain ⟨boot, hboot, rfl⟩ := List.mem_map.mp hb
  have hlookup := logs_lookup r.distinct hnames hj hm hjlogs hboot
  rw [harchive, stemOf_archiveName, ← hlogs] at hlookup
  have hmode : boot.1.mode ∈ modes package.variant := by
    rw [← hmodes]
    exact List.mem_map_of_mem (f := fun boot : BootRow × Bytes => boot.1.mode) hboot
  have hversion := hready.versions _ hmode _ hlookup
  rw [hready.variant] at hboot
  exact boots_bootOk hboot hlookup hversion

section

variable {toml : Bytes → Option Preset} {t : Tree} {r : Run}

theorem Collected.value (h : Collected decimal lower sha manifestOf r dist) :
    ∃ blank, header sha r.tree = .ok blank ∧
      dist.tests.value = summary decimal lower sha manifestOf r blank ∧
      logs decimal lower sha manifestOf r.completed = dist.logs := by
  obtain ⟨blank, hheader, hfinished⟩ := h.saved
  obtain ⟨hdoc, hlogs⟩ := Saved.whole.inj hfinished
  exact ⟨blank, hheader, by rw [← hdoc], hlogs⟩

theorem summary_pass {blank : TestResults} :
    (summary decimal lower sha manifestOf r blank).pass = true ↔
      ∀ j ∈ r.completed, (testOne decimal lower sha manifestOf j).1.pass = true := by
  change (summary decimal lower sha manifestOf r blank).results.all (·.pass) = true ↔ _
  rw [List.all_eq_true]
  constructor
  · exact fun hall j hj => hall _ (summary_mem.mpr ⟨j, hj, rfl⟩)
  · rintro hall row hrow
    obtain ⟨j, hj, rfl⟩ := summary_mem.mp hrow
    exact hall j hj

theorem summary_archives {blank : TestResults} :
    ((summary decimal lower sha manifestOf r blank).results.map ResultRow.archive).Perm
      (r.completed.map Job.archive) := by
  have hperm := (List.perm_insertionSort byArchive
    (rows decimal lower sha manifestOf r.completed)).map ResultRow.archive
  rw [rows, List.map_map] at hperm
  rwa [show ResultRow.archive ∘ (fun j => (testOne decimal lower sha manifestOf j).1) = Job.archive
    from funext testOne_archive] at hperm

/-- What the gate has seen when it accepts. -/
theorem ready_of_accepted {record : Record} (h : Collected decimal lower sha manifestOf r dist)
    (hrecord : Release.main toml sha true t dist = .ok record) :
    (∀ j ∈ r.completed, (testOne decimal lower sha manifestOf j).1.pass = true) ∧
      (∀ p ∈ runnerFiles, ∃ content, t.file? p = some content ∧ r.tree.file? p = some content) ∧
      (∃ source, sourceRecord sha t = .ok source) ∧
      ∃ packages, expected toml t = some packages ∧
        (∀ name, name ∈ packages.map (·.1) ↔ name ∈ r.completed.map Job.archive) ∧
        ∀ item ∈ packages, ∃ archive, dist.archives.lookup item.1 = some archive ∧
          PackageReady sha t dist item.2 archive := by
  obtain ⟨blank, hheader, hvalue, -⟩ := h.value
  obtain ⟨packages, archives, source, hgate, harchives, hsource, -⟩ := main_write_eq_ok.mp hrecord
  have hpassed := hgate.passed
  have hrunner := hgate.runner
  have hdependencies := hgate.dependencies
  rw [hvalue] at hpassed hrunner hdependencies
  refine ⟨summary_pass.mp hpassed, (scripts_iff hheader).mp ⟨hrunner, hdependencies⟩,
    ⟨source, hsource⟩, packages, hgate.matrix, fun name => ?_, fun item hitem => ?_⟩
  · rw [hgate.names, h.names]
  · obtain ⟨row, hrow⟩ := checkArchives_ok sha harchives item hitem
    obtain ⟨archive, result, harchive, -, hok, -⟩ := checkArchive_eq_ok.mp hrow
    refine ⟨archive, harchive,
      { preset := hok.preset, bits := hok.bits, variant := hok.variant
        kernelVersion := hok.kernelVersion, kernelHz := hok.kernelHz
        memory := hok.memory.1.trans hok.memory.2, presetCurrent := hok.presetCurrent
        inputs := hok.inputs, versions := fun mode hmode log hlog => ?_ }⟩
    obtain ⟨b, hb, rfl⟩ := List.mem_map.mp ((hok.modes mode).mpr hmode)
    obtain ⟨log', hlog', -, hversion⟩ := (hok.boots b hb).log
    cases hlog.symm.trans hlog'
    exact hversion

/-- It has seen no more than that. -/
theorem accepted_of_ready {packages : List (Text × Package)} {source : List (Path × Hash)}
    (h : Collected decimal lower sha manifestOf r dist)
    (hpass : ∀ j ∈ r.completed, (testOne decimal lower sha manifestOf j).1.pass = true)
    (hscripts : ∀ p ∈ runnerFiles, ∃ content, t.file? p = some content ∧
      r.tree.file? p = some content)
    (hsource : sourceRecord sha t = .ok source) (hmatrix : expected toml t = some packages)
    (hnames : ∀ name, name ∈ packages.map (·.1) ↔ name ∈ r.completed.map Job.archive)
    (hready : ∀ item ∈ packages, ∃ archive, dist.archives.lookup item.1 = some archive ∧
      PackageReady sha t dist item.2 archive) :
    ∃ record, Release.main toml sha true t dist = .ok record := by
  obtain ⟨blank, hheader, hvalue, hlogs⟩ := h.value
  obtain ⟨hrunner, hdependencies⟩ := (scripts_iff hheader).mpr hscripts
  have hkeys := @summary_archives decimal lower sha manifestOf r blank
  rw [← hvalue] at hkeys
  have hjobs : ∀ j ∈ r.completed, ∃ package, j.archive = archiveName package := by
    intro j hj
    obtain ⟨item, hitem, hname⟩ := List.mem_map.mp ((hnames _).mpr (List.mem_map_of_mem hj))
    exact ⟨item.2, by rw [← hname, expected_archiveName hmatrix item hitem]⟩
  have hperm : (packages.map (·.1)).Perm (r.completed.map Job.archive) :=
    (List.perm_ext_iff_of_nodup (expected_nodup hmatrix) r.distinct).mpr hnames
  have hrows : ∀ item ∈ packages, ∃ row, checkArchive sha t dist item.1 item.2 = .ok row := by
    intro item hitem
    obtain ⟨archive, harchive, hpackage⟩ := hready item hitem
    obtain ⟨j, hj, hname⟩ := List.mem_map.mp ((hnames _).mp (List.mem_map_of_mem hitem))
    obtain ⟨archive', harchive', hdigested, hextracted, hread⟩ := h.archives j hj
    rw [hname] at harchive'
    cases harchive.symm.trans harchive'
    have hitemName := expected_archiveName hmatrix item hitem
    refine ⟨_, checkArchive_eq_ok.mpr ⟨archive, (testOne decimal lower sha manifestOf j).1, harchive,
      ?_, archiveOk_of_ready hj hjobs (hname.trans hitemName) hdigested hextracted hread hlogs.symm
        (hpass j hj) hpackage, rfl⟩⟩
    apply (mem_iff_dictGet _).mp
    · refine List.mem_map.mpr ⟨(testOne decimal lower sha manifestOf j).1, ?_, ?_⟩
      · rw [hvalue]
        exact summary_mem.mpr ⟨j, hj, rfl⟩
      · rw [testOne_archive, hname]
    · rw [List.map_map]
      exact hkeys.nodup_iff.mpr r.distinct
  obtain ⟨archives, harchives⟩ := checkArchives_of hrows
  have hlength := (hkeys.trans hperm.symm).length_eq
  rw [List.length_map, List.length_map] at hlength
  exact ⟨_, main_write_eq_ok.mpr ⟨packages, archives, source,
    { matrix := hmatrix, names := fun name => (hnames name).trans (h.names name).symm
      passed := by rw [hvalue]; exact summary_pass.mpr hpass
      runner := by rw [hvalue]; exact hrunner
      dependencies := by rw [hvalue]; exact hdependencies
      count := hlength, covered := fun name => (hkeys.trans hperm.symm).mem_iff },
    harchives, hsource, rfl⟩⟩

end

/-- After a run that came to its end the gate asks nothing more of the tests
than that they passed, were made by these scripts, and show the version of the
kernel: the count and the names of the rows, the digests of archives and logs,
the boot paths and what they record are as it wants them. -/
theorem tested_release_accepted_iff {toml : Bytes → Option Preset} {t : Tree} {r : Run} {dist : Dist}
    (h : Collected decimal lower sha manifestOf r dist) :
    (∃ record, Release.main toml sha true t dist = .ok record) ↔
      (∀ j ∈ r.completed, (testOne decimal lower sha manifestOf j).1.pass = true) ∧
      (∀ p ∈ runnerFiles, ∃ content, t.file? p = some content ∧ r.tree.file? p = some content) ∧
      (∃ source, sourceRecord sha t = .ok source) ∧
      ∃ packages, expected toml t = some packages ∧
        (∀ name, name ∈ packages.map (·.1) ↔ name ∈ r.completed.map Job.archive) ∧
        ∀ item ∈ packages, ∃ archive, dist.archives.lookup item.1 = some archive ∧
          PackageReady sha t dist item.2 archive := by
  constructor
  · rintro ⟨record, hrecord⟩
    exact ready_of_accepted h hrecord
  · rintro ⟨hpass, hscripts, ⟨source, hsource⟩, packages, hmatrix, hnames, hready⟩
    exact accepted_of_ready h hpass hscripts hsource hmatrix hnames hready

/-! ## A release of one package -/

/-- A tiny shell that answers what it is asked. -/
def tinyGuest (mode : Acceptance.Mode) : Acceptance.Session where
  qemu := true
  compiled := true
  port := text "8000"
  ticks := ("Linux version 6.18.51 (gcc)\ntinysh# " ::
    (match mode with
    | .split => ["3/3 replies\ntinysh# ", "saved \ntinysh# ",
      "\nRAPT_EXEC_CHILD\nexit 37\ntinysh# "]
    | _ => ["Linux\ntinysh# ", "tinysh# ", "raptor-release-check\ntinysh# ", "tinysh# ",
      "tinysh# ", "RAPT_TINY_END\ntinysh# "])).flatMap Acceptance.shown
  clock n := n
  elapsed _ := 2

def tinyJob : Job where
  archive := archiveName onePackage
  digested := oneArchive.bytes
  extracted := oneArchive.bytes
  left := oneArchive.bytes
  audited := true
  guests := tinyGuest
  keygen := false
  disks _ := ⟨[], fun _ => [], none⟩

def tinyManifest (bytes : Bytes) : Option Manifest :=
  if bytes = oneArchive.bytes then some oneArchive.value else none

def tinyRun : Run where
  tree := builtTree
  completed := [tinyJob]
  distinct := List.nodup_singleton _
  dump _ := ascii "results"

def tinyBlank : TestResults :=
  ⟨false, some (plainSha.hash []), [(text "distro_runtime.py", plainSha.hash []),
    (text "release_common.py", plainSha.hash [])], []⟩

theorem tinyRun_header : header plainSha tinyRun.tree = .ok tinyBlank := rfl

def tinyTests : TestResults :=
  summary Char.isDigit (List.map Char.toLower) plainSha tinyManifest tinyRun tinyBlank

def tinyDist : Dist :=
  { oneDist with
    tests := ⟨ascii "results", tinyTests⟩
    logs := logs Char.isDigit (List.map Char.toLower) plainSha tinyManifest [tinyJob] }

set_option maxRecDepth 100000 in
theorem tinyDist_accepted : ∃ record, Release.main onePreset plainSha true builtTree tinyDist = .ok record :=
  Python.isOk_iff.mp (by decide +kernel)

theorem tinyManifest_oneArchive : tinyManifest oneArchive.bytes = some oneArchive.value := if_pos rfl

theorem tinyDist_archives {name : Text} {archive : Document Manifest}
    (h : tinyDist.archives.lookup name = some archive) : name = archiveName onePackage ∧ archive = oneArchive := by
  have hmem := Python.mem_of_lookup h
  cases List.mem_singleton.mp hmem
  exact ⟨rfl, rfl⟩

theorem tinyJob_monotone : tinyJob.Monotone := by
  intro mode m n h
  change (m : Rat) ≤ n
  exact_mod_cast h

theorem accepted_release_tested_tiny :
    tinyJob.extracted = tinyJob.digested ∧ tinyJob.Monotone ∧
    ∃ packages, expected onePreset builtTree = some packages ∧ ∀ item ∈ packages,
      ∃ archive, tinyDist.archives.lookup item.1 = some archive ∧
        Tested tinyJob item.2 archive tinyDist.logs := by
  obtain ⟨n, hn⟩ := exists_stopped_eq_run
    (main Char.isDigit (List.map Char.toLower) plainSha tinyManifest tinyRun) nothing
  obtain ⟨record, hrecord⟩ := tinyDist_accepted
  have hsaved : (history (main Char.isDigit (List.map Char.toLower) plainSha tinyManifest) nothing
      [(tinyRun, n)]).tests = .whole tinyDist.tests tinyDist.logs := by
    rw [history_cons, history_nil, hn, run_tests (List.cons_ne_nil _ _) tinyRun_header]
    rfl
  obtain ⟨r, hr, packages, hpackages, -, hready⟩ :=
    accepted_release_tested [(tinyRun, n)]
      (fun name archive h => by
        obtain ⟨-, rfl⟩ := tinyDist_archives h
        exact tinyManifest_oneArchive) hsaved hrecord
  cases List.mem_singleton.mp hr
  refine ⟨rfl, tinyJob_monotone, packages, hpackages, fun item hitem => ?_⟩
  obtain ⟨j, hj, archive, -, harchive, htested⟩ := hready item hitem
  cases List.mem_singleton.mp hj
  exact ⟨archive, harchive, htested⟩

theorem tinyDist_collected :
    Collected Char.isDigit (List.map Char.toLower) plainSha tinyManifest tinyRun tinyDist := by
  refine ⟨⟨tinyBlank, tinyRun_header, rfl⟩, fun name => Iff.rfl, fun j hj => ?_⟩
  cases List.mem_singleton.mp hj
  exact ⟨oneArchive, by simp [tinyJob, tinyDist, oneDist], rfl, rfl, tinyManifest_oneArchive⟩

theorem tested_release_accepted_iff_tiny :
    (testOne Char.isDigit (List.map Char.toLower) plainSha tinyManifest tinyJob).1.pass = true :=
  ((tested_release_accepted_iff tinyDist_collected).mp tinyDist_accepted).1 tinyJob
    List.mem_cons_self

end LinuxBuild.PackageTests
