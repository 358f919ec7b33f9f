import LinuxBuild.Toml

/-!
# `.config.mk`

`gen_make_config` writes it, and the Makefile includes it before its own
defaults.
-/

namespace LinuxBuild.MakeConfig

open Toml

/-- `sys.exit`, `ValueError`, or another exception. -/
inductive Refusal where
  | exit (message : Text)
  | valueError (message : Text)
  | raised

/-! ## Written by `gen-config.py` -/

/-- A row of `ARCH_MAP`. -/
structure Arch where
  bits : Nat
  fpuIsa : Text
  nofpuIsa : Text
  fpuAbi : Text
  nofpuAbi : Text

def rv32 : Arch :=
  ⟨32, text "rv32imafdc_zicntr_zicsr_zifencei", text "rv32imac_zicntr_zicsr_zifencei",
    text "ilp32d", text "ilp32"⟩

def rv64 : Arch :=
  ⟨64, text "rv64imafdc_zicntr_zicsr_zifencei", text "rv64imac_zicntr_zicsr_zifencei",
    text "lp64d", text "lp64"⟩

def archMap : List (Text × Arch) := [(text "riscv32", rv32), (text "riscv64", rv64)]

variable (repr : Value → Text)

/-- `ARCH_MAP.get(arch_name)`; a list or a table is no key. -/
def archOf (name : Value) : Except Refusal Arch :=
  let unsupported := Refusal.exit
    (text "ERROR: unsupported target.arch '" ++ name.str repr ++ text "'")
  match name with
  | .string s =>
    match archMap.lookup s with
    | some arch => .ok arch
    | none => .error unsupported
  | .array _ | .table _ => .error .raised
  | _ => .error unsupported

/-- A line is text of its own, or gives a variable a value. -/
inductive Line where
  | note (written : Text)
  | set (name : Text) (pad : Nat) (value : Text)

def Line.written : Line → Text
  | .note s => s
  | .set name pad value => name ++ List.replicate pad ' ' ++ text " := " ++ value

/-- What `gen_make_config` reads of a preset, with its defaults. -/
structure Settings where
  arch : Arch
  minimalFpu : Value
  buildrootFpu : Value
  kver : Value
  rootfsTy : Value
  compress : Value
  loader : Value
  mem : Value
  memBuildroot : Value
  timeout : Value
  sshPort : Value

def settings (cfg : Value) : Except Refusal Settings := do
  let get (default : Value) (keys : List String) := deepGet default cfg (keys.map text)
  let arch ← archOf repr (get (.string (text "riscv64")) ["target", "arch"])
  let mem := get (.integer 1024) ["boot", "memory"]
  return {
    arch := arch
    minimalFpu := get (.boolean false) ["minimal", "fpu"]
    buildrootFpu := get (.boolean true) ["buildroot", "fpu"]
    kver := get (.string (text "6.18.51")) ["kernel", "version"]
    rootfsTy := get (.string (text "initramfs")) ["rootfs", "type"]
    compress := get (.string (text "gzip")) ["rootfs", "compression"]
    loader := get (.string (text "qemu")) ["boot", "loader"]
    mem := mem
    memBuildroot := get mem ["buildroot", "memory"]
    timeout := get (.integer 0) ["boot", "timeout"]
    sshPort := get (.integer 2222) ["buildroot", "ssh_port"] }

def isDistro (s : Settings) : Bool :=
  s.rootfsTy.isText (text "alpine") || s.rootfsTy.isText (text "debian")

def configLines (s : Settings) (presetName : Text) : List Line :=
  let fpu (v : Value) (isa nofpu : Text) := if v.truth then isa else nofpu
  [.note (text "# Auto-generated by scripts/gen-config.py — DO NOT EDIT"),
   .note (text "# Source: " ++ presetName),
   .note [],
   .set (text "SYSTEM_PRESET") 2 presetName,
   .set (text "BITS") 11 (Nat.toDigits 10 s.arch.bits),
   .set (text "KERNEL_VERSION") 1 (s.kver.str repr),
   .note [],
   .note (text "# Minimal variant ISA/ABI (derived from [minimal].fpu=" ++
    s.minimalFpu.str repr ++ text ")"),
   .set (text "RISCV_ISA") 6 (fpu s.minimalFpu s.arch.fpuIsa s.arch.nofpuIsa),
   .set (text "RISCV_ABI") 6 (fpu s.minimalFpu s.arch.fpuAbi s.arch.nofpuAbi),
   .note [],
   .note (text "# Buildroot variant ISA/ABI (derived from [buildroot].fpu=" ++
    s.buildrootFpu.str repr ++ text ")"),
   .set (text "RISCV_ISA_BUILDROOT") 0 (fpu s.buildrootFpu s.arch.fpuIsa s.arch.nofpuIsa),
   .set (text "RISCV_ABI_BUILDROOT") 0 (fpu s.buildrootFpu s.arch.fpuAbi s.arch.nofpuAbi),
   .note [],
   .set (text "QEMU_MEM") 7 (s.mem.str repr),
   .set (text "QEMU_MEM_BUILDROOT") 0 (s.memBuildroot.str repr),
   .set (text "QEMU_TIMEOUT") 3 (if s.timeout.truth then s.timeout.str repr else []),
   .set (text "SSH_PORT") 7 (s.sshPort.str repr),
   .note [],
   .note (text "# Derived from system.toml"),
   .set (text "SYSTEM_ROOTFS") 2 (s.rootfsTy.str repr),
   .set (text "SYSTEM_COMPRESS") 0 (s.compress.str repr),
   .set (text "SYSTEM_LOADER") 2 (s.loader.str repr)]

/-- The lines a distribution preset adds. -/
def distroLines (s : Settings) (presetPath : Text) : List Line :=
  [.set (text "DISTRO_PRESET") 0 presetPath,
   .set (text "KERNEL_VARIANT") 0 (text "distro"),
   .set (text "RISCV_ISA") 0 s.arch.fpuIsa,
   .set (text "RISCV_ABI") 0 s.arch.fpuAbi]

def allLines (cfg : Value) (presetName presetPath : Text) : Except Refusal (List Line) := do
  let s ← settings repr cfg
  if isDistro s then
    if s.arch.bits ≠ 64 ∨ s.loader.isText (text "qemu") = false then
      throw (.valueError (text "distribution rootfs requires riscv64 and boot.loader=qemu"))
    else return configLines repr s presetName ++ distroLines s presetPath
  else return configLines repr s presetName

def genMakeConfig (cfg : Value) (presetName presetPath : Text) : Except Refusal Text := do
  let lines ← allLines repr cfg presetName presetPath
  return Python.join (text "\n") (lines.map Line.written) ++ text "\n"

/-! ## Read by make -/

/-- A carriage return before the end of a line is dropped. -/
def dropReturn (line : Text) : Text :=
  if line.getLast? = some '\r' then line.dropLast else line

/-- `isspace`. -/
def isSpace (c : Char) : Bool := c = ' ' || (9 ≤ c.toNat && c.toNat ≤ 13)

/-- The text before a comment, after some backslashes. They quote a comment sign
and, before one, each other. -/
def uncommentFrom (backslashes : Nat) : Text → Text
  | [] => List.replicate backslashes '\\'
  | '\\' :: rest => uncommentFrom (backslashes + 1) rest
  | '#' :: rest =>
    if backslashes % 2 = 0 then List.replicate (backslashes / 2) '\\'
    else List.replicate (backslashes / 2) '\\' ++ '#' :: uncommentFrom 0 rest
  | c :: rest => List.replicate backslashes '\\' ++ c :: uncommentFrom 0 rest

/-- What stands after `:=`, up to a comment. -/
def argument (written : Text) : Text := uncommentFrom 0 (written.dropWhile isSpace)

/-- A line that ends in an odd number of backslashes goes on in the next one. -/
def continues (line : Text) : Bool := (line.reverse.takeWhile (· = '\\')).length % 2 = 1

def stripEnd (line : Text) : Text := (line.reverse.dropWhile isSpace).reverse

/-- The lines of a file, with a blank where a line goes on. -/
def logicalLines : List Text → List Text
  | [] => []
  | line :: lines =>
    if continues (dropReturn line) then
      match logicalLines lines with
      | [] => [dropReturn line]
      | next :: rest =>
        (stripEnd (dropReturn line).dropLast ++ ' ' :: next.dropWhile isSpace) :: rest
    else dropReturn line :: logicalLines lines

/-- A line `NAME := value`: the name, and what stands after `:=`. -/
def assignment (line : Text) : Option (Text × Text) :=
  match line.dropWhile (fun c => c ≠ ':' && c ≠ '#') with
  | ':' :: '=' :: value => some (stripEnd (line.takeWhile (fun c => c ≠ ':' && c ≠ '#')), value)
  | _ => none

def definitions (file : Text) : List (Text × Text) :=
  (logicalLines (file.splitOn '\n')).filterMap assignment

abbrev Defs := List (Text × Text)

/-- What make does with the text after a `:=`, given the variables so far: the
variables after it, which a function in the text can set, and the value; or it
stops. -/
abbrev Expansion := Defs → Text → Option (Defs × Text)

/-- A text without a dollar stands for itself. -/
def Literal (expand : Expansion) : Prop :=
  ∀ defs written, '$' ∉ written → expand defs written = some (defs, argument written)

/-- The variables after the definitions, the last one first. -/
def define (expand : Expansion) (defs : Defs) : List (Text × Text) → Option Defs
  | [] => some defs
  | (name, written) :: rest =>
    match expand defs written with
    | some (defs, value) => define expand ((name, value) :: defs) rest
    | none => none

/-- The Makefile's variables that the packagers get to see. -/
structure Variables where
  systemPreset : Text
  bits : Text
  kernelVersion : Text
  qemuMem : Text
  qemuMemBuildroot : Text

/-- The variables that have no definition get that of the Makefile's `?=`. -/
def variablesOf (defs : Defs) : Variables where
  systemPreset := (defs.lookup (text "SYSTEM_PRESET")).getD []
  bits := if (defs.lookup (text "BITS")).getD (text "32") = text "64" then text "64" else text "32"
  kernelVersion := (defs.lookup (text "KERNEL_VERSION")).getD (text "6.18.51")
  qemuMem := (defs.lookup (text "QEMU_MEM")).getD (text "1024")
  qemuMemBuildroot := (defs.lookup (text "QEMU_MEM_BUILDROOT")).getD (text "1024")

/-- The Makefile includes the file before its `?=`. -/
def included (expand : Expansion) (file : Text) : Option Variables :=
  (define expand [] (definitions file)).map variablesOf

/-- `RELEASE_NAME`. -/
def releaseName (v : Variables) : Text :=
  text "linux-riscv-" ++ (if v.systemPreset = [] then v.bits else v.systemPreset) ++ text "-v" ++
    v.kernelVersion

/-- `BUILDROOT_RELEASE_NAME`. -/
def buildrootReleaseName (v : Variables) : Text :=
  text "linux-riscv-rv" ++ v.bits ++
    (if v.systemPreset = [] then [] else text "-" ++ v.systemPreset) ++ text "-buildroot-v" ++
    v.kernelVersion

/-- What the shell makes of a text between double quotes, if it ends where the
quotes do and nothing is substituted in it. -/
def inQuotes : Text → Option Text
  | [] => some []
  | '"' :: _ | '$' :: _ | '\x60' :: _ | ['\\'] => none
  | '\\' :: c :: rest =>
    if c = '"' || c = '$' || c = '\x60' || c = '\\' then (inQuotes rest).map (c :: ·)
    else (inQuotes (c :: rest)).map ('\\' :: ·)
  | c :: rest => (inQuotes rest).map (c :: ·)

/-! ## What is read back -/

/-- What make takes a written value for. -/
def readBack (value : Text) : Text := argument (dropReturn value)

/-- No line break, and no NUL, behind which make does not see the line. -/
def OneLine (value : Text) : Prop := '\n' ∉ value ∧ '\x00' ∉ value

/-- A line that ends in the text does not go on. -/
def Ends (value : Text) : Prop := continues (dropReturn value) = false

/-- Nothing that make expands, and no line that goes on. -/
def Plain (value : Text) : Prop := '$' ∉ value ∧ Ends value

instance (value : Text) : Decidable (OneLine value) := inferInstanceAs (Decidable (_ ∧ _))
instance (value : Text) : Decidable (Ends value) := inferInstanceAs (Decidable (_ = _))
instance (value : Text) : Decidable (Plain value) := inferInstanceAs (Decidable (_ ∧ _))

/-- The text is expanded without an error, and none of the variables is set. -/
def Quiet (expand : Expansion) (names : List Text) (written : Text) : Prop :=
  ∀ defs, ∃ defs' value, expand defs written = some (defs', value) ∧
    ∀ name ∈ names, defs'.lookup name = defs.lookup name

/-- A name ends where make ends it. -/
def isName (name : Text) : Bool := name.all fun c => c ≠ ':' && c ≠ '#' && !isSpace c

/-- A note is empty or a comment. -/
def Line.ok : Line → Bool
  | .note s => s.isEmpty || s.head? = some '#'
  | .set name _ _ => isName name

def Line.defines : Line → Option (Text × Text)
  | .note _ => none
  | .set name _ value => some (name, ' ' :: dropReturn value)

theorem dropReturn_append {front : Text} (h : front.getLast? ≠ some '\r') (value : Text) :
    dropReturn (front ++ value) = front ++ dropReturn value := by
  cases value with
  | nil => simp [dropReturn, h]
  | cons c value =>
    unfold dropReturn
    rw [List.getLast?_append_of_ne_nil front (List.cons_ne_nil c value)]
    split
    · rw [List.dropLast_append_of_ne_nil (List.cons_ne_nil c value)]
    · rfl

theorem isName_mem {name : Text} (h : isName name = true) {c : Char} (hc : c ∈ name) :
    (c ≠ ':' && c ≠ '#') = true ∧ isSpace c = false := by
  have := List.all_eq_true.mp h c hc
  rw [Bool.and_eq_true, Bool.not_eq_true'] at this
  exact this

/-- The name and the blanks behind it. -/
theorem strip_name {name : Text} (h : isName name = true) (pad : Nat) :
    ((name ++ List.replicate pad ' ').reverse.dropWhile isSpace).reverse = name := by
  rw [List.reverse_append, List.reverse_replicate]
  have hpad : (List.replicate pad ' ' ++ name.reverse).dropWhile isSpace =
      name.reverse.dropWhile isSpace := by
    rw [List.dropWhile_append_of_pos]
    intro c hc
    rw [List.eq_of_mem_replicate hc]
    rfl
  have hname : name.reverse.dropWhile isSpace = name.reverse := by
    cases hrev : name.reverse with
    | nil => rfl
    | cons c rest =>
      have hc : c ∈ name := by
        rw [← List.mem_reverse, hrev]
        exact List.mem_cons_self
      rw [List.dropWhile_cons, (isName_mem h hc).2]
      rfl
  rw [hpad, hname, List.reverse_reverse]

theorem stripEnd_append (front : Text) {c : Char} (hc : isSpace c = false) (rest : Text) :
    stripEnd (front ++ c :: rest) = front ++ c :: stripEnd rest := by
  have hfront : (c :: front.reverse).dropWhile isSpace = c :: front.reverse := by
    rw [List.dropWhile_cons, hc]
    rfl
  have hreverse : (front ++ c :: rest).reverse = rest.reverse ++ c :: front.reverse := by simp
  rw [stripEnd, stripEnd, hreverse, List.dropWhile_append, hfront]
  split
  · rename_i hempty
    rw [List.isEmpty_iff.mp hempty]
    simp
  · simp

/-- Whatever stands behind it, the name is the one that is written. -/
theorem assignment_named {name : Text} (h : isName name = true) (pad : Nat) (value : Text) :
    assignment ((name ++ List.replicate pad ' ') ++ ':' :: '=' :: value) = some (name, value) := by
  have hfront : ∀ c ∈ name ++ List.replicate pad ' ', (c ≠ ':' && c ≠ '#') = true := by
    intro c hc
    rcases List.mem_append.mp hc with hc | hc
    · exact (isName_mem h hc).1
    · rw [List.eq_of_mem_replicate hc]
      rfl
  unfold assignment
  rw [List.dropWhile_append_of_pos hfront, List.takeWhile_append_of_pos hfront]
  have hstrip := strip_name h pad
  rw [List.reverse_append, List.reverse_replicate] at hstrip
  simp [hstrip, stripEnd]

theorem dropReturn_set (name : Text) (pad : Nat) (value : Text) :
    dropReturn (Line.set name pad value).written =
      (name ++ List.replicate (pad + 1) ' ') ++ ':' :: '=' :: ' ' :: dropReturn value := by
  have hwritten : (Line.set name pad value).written =
      (name ++ List.replicate (pad + 1) ' ' ++ [':', '=', ' ']) ++ value := by
    simp [Line.written, text, List.replicate_succ']
  rw [hwritten, dropReturn_append (by simp)]
  simp

theorem dropReturn_note (s : Text) : ∃ rest, dropReturn ('#' :: s) = '#' :: rest := by
  rw [← List.singleton_append, dropReturn_append (by simp)]
  exact ⟨_, rfl⟩

theorem assignment_comment (rest : Text) : assignment ('#' :: rest) = none := rfl

theorem assignment_written {line : Line} (h : line.ok = true) :
    assignment (dropReturn line.written) = line.defines := by
  cases line with
  | set name pad value =>
    rw [dropReturn_set]
    exact assignment_named h _ _
  | note s =>
    cases s with
    | nil => rfl
    | cons c s =>
      obtain rfl : c = '#' := by simpa [Line.ok] using h
      obtain ⟨rest, hrest⟩ := dropReturn_note s
      rw [Line.written, hrest]
      exact assignment_comment rest

/-- A line that goes on still begins with its name, or is a comment. -/
theorem assignment_joined {line : Line} (h : line.ok = true)
    (hon : continues (dropReturn line.written) = true) (next : Text) {d : Text × Text}
    (hd : assignment (stripEnd (dropReturn line.written).dropLast ++ ' ' :: next) = some d) :
    ∃ pad value, line = .set d.1 pad value := by
  cases line with
  | set name pad value =>
    have hfirst : stripEnd (dropReturn (Line.set name pad value).written).dropLast =
        (name ++ List.replicate (pad + 1) ' ') ++ ':' :: '=' ::
          stripEnd (' ' :: dropReturn value).dropLast := by
      rw [dropReturn_set, List.dropLast_append_of_ne_nil (List.cons_ne_nil _ _),
        List.dropLast_cons_cons, List.dropLast_cons_cons, stripEnd_append _ rfl]
      exact congrArg (fun t => _ ++ ':' :: t) (stripEnd_append [] rfl _)
    rw [hfirst, List.append_assoc, List.cons_append, List.cons_append] at hd
    rw [assignment_named h] at hd
    cases hd
    exact ⟨pad, value, rfl⟩
  | note s =>
    cases s with
    | nil => cases hon
    | cons c s =>
      obtain rfl : c = '#' := by simpa [Line.ok] using h
      obtain ⟨rest, hrest⟩ := dropReturn_note s
      rw [Line.written, hrest] at hd hon
      cases rest with
      | nil => cases hon
      | cons b rest =>
        have hstrip : stripEnd ('#' :: b :: rest).dropLast = '#' :: stripEnd (b :: rest).dropLast :=
          stripEnd_append [] rfl _
        rw [hstrip] at hd
        cases (assignment_comment _).symm.trans hd

/-- Only the variables of the lines are defined, however lines go on. -/
theorem defined_names {lines : List Line} (hok : ∀ line ∈ lines, line.ok = true)
    {d : Text × Text} (hd : d ∈ (logicalLines (lines.map Line.written ++ [[]])).filterMap assignment) :
    ∃ pad value, .set d.1 pad value ∈ lines := by
  induction lines with
  | nil => cases hd
  | cons line lines ih =>
    have hline := hok line List.mem_cons_self
    have ih' : d ∈ (logicalLines (lines.map Line.written ++ [[]])).filterMap assignment →
        ∃ pad value, .set d.1 pad value ∈ line :: lines := by
      intro hd
      obtain ⟨pad, value, hmem⟩ := ih (fun l hl => hok l (List.mem_cons_of_mem _ hl)) hd
      exact ⟨pad, value, List.mem_cons_of_mem _ hmem⟩
    rw [List.map_cons, List.cons_append, logicalLines] at hd
    split at hd
    · rename_i hon
      have hfirst : ∀ next, assignment (stripEnd (dropReturn line.written).dropLast ++ ' ' :: next) =
          some d → ∃ pad value, .set d.1 pad value ∈ line :: lines := by
        intro next hd
        obtain ⟨pad, value, rfl⟩ := assignment_joined hline hon next hd
        exact ⟨pad, value, List.mem_cons_self⟩
      split at hd
      · obtain ⟨l, hl, hl'⟩ := List.mem_filterMap.mp hd
        rw [List.mem_singleton.mp hl, assignment_written hline] at hl'
        cases line with
        | note s => cases hl'
        | set name pad value =>
          cases hl'
          exact ⟨pad, value, List.mem_cons_self⟩
      · rename_i next rest hrest
        obtain ⟨l, hl, hl'⟩ := List.mem_filterMap.mp hd
        obtain rfl | hl := List.mem_cons.mp hl
        · exact hfirst _ hl'
        · apply ih'
          rw [hrest]
          exact List.mem_filterMap.mpr ⟨l, List.mem_cons_of_mem _ hl, hl'⟩
    · obtain ⟨l, hl, hl'⟩ := List.mem_filterMap.mp hd
      obtain rfl | hl := List.mem_cons.mp hl
      · rw [assignment_written hline] at hl'
        cases line with
        | note s => cases hl'
        | set name pad value =>
          cases hl'
          exact ⟨pad, value, List.mem_cons_self⟩
      · exact ih' (List.mem_filterMap.mpr ⟨l, hl, hl'⟩)

theorem logicalLines_append {front : List Text} (h : ∀ line ∈ front, Ends line) (rest : List Text) :
    logicalLines (front ++ rest) = front.map dropReturn ++ logicalLines rest := by
  induction front with
  | nil => rfl
  | cons line front ih =>
    rw [List.cons_append, logicalLines, if_neg (Bool.eq_false_iff.mp (h line List.mem_cons_self)),
      ih fun l hl => h l (List.mem_cons_of_mem _ hl)]
    rfl

/-- The lines up to some point are read one by one, if none of them goes on. -/
theorem definitions_join {front rest : List Line} (hne : front ++ rest ≠ [])
    (hok : ∀ line ∈ front, line.ok = true) (hends : ∀ line ∈ front, Ends line.written)
    (hline : ∀ line ∈ front ++ rest, '\n' ∉ line.written) :
    definitions (Python.join (text "\n") ((front ++ rest).map Line.written) ++ text "\n") =
      front.filterMap Line.defines ++
        (logicalLines (rest.map Line.written ++ [[]])).filterMap assignment := by
  have hbreak : ∀ l ∈ (front ++ rest).map Line.written, '\n' ∉ l := by
    intro l hl
    obtain ⟨line, hmem, rfl⟩ := List.mem_map.mp hl
    exact hline line hmem
  have hsplit : (Python.join (text "\n") ((front ++ rest).map Line.written) ++
      text "\n").splitOn '\n' = (front ++ rest).map Line.written ++ [[]] := by
    have hjoin : (['\n'].intercalate ((front ++ rest).map Line.written)).splitOn '\n' =
        (front ++ rest).map Line.written :=
      List.splitOn_intercalate '\n' hbreak (by simpa using hne)
    rw [show text "\n" = ['\n'] from rfl, List.splitOn_append_cons_self]
    rw [Python.join, hjoin]
    rfl
  have hfront : ∀ l ∈ front.map Line.written, Ends l := by simpa using hends
  rw [definitions, hsplit, List.map_append, List.append_assoc, logicalLines_append hfront,
    List.filterMap_append, List.map_map, List.filterMap_map]
  congr 1
  apply List.filterMap_congr
  intro line hmem
  exact assignment_written (hok line hmem)

/-- The variables that matter have the values of their last definitions. -/
theorem define_lookup {expand : Expansion} (hexpand : Literal expand) {names : List Text}
    {ds : List (Text × Text)} (h : ∀ d ∈ ds, (d.1 ∈ names → '$' ∉ d.2) ∧
      (d.1 ∉ names → Quiet expand names d.2)) (defs : Defs) :
    ∃ defs', define expand defs ds = some defs' ∧ ∀ name ∈ names,
      defs'.lookup name = ((ds.reverse.lookup name).map argument).or (defs.lookup name) := by
  induction ds generalizing defs with
  | nil => exact ⟨defs, rfl, fun _ _ => rfl⟩
  | cons d ds ih =>
    obtain ⟨name, written⟩ := d
    obtain ⟨hplain, hquiet⟩ := h _ List.mem_cons_self
    obtain ⟨defs₁, value, hvalue, hkept, hnamed⟩ : ∃ defs₁ value,
        expand defs written = some (defs₁, value) ∧
          (∀ other ∈ names, defs₁.lookup other = defs.lookup other) ∧
          (name ∈ names → value = argument written) := by
      by_cases hname : name ∈ names
      · exact ⟨defs, argument written, hexpand defs written (hplain hname), fun _ _ => rfl,
          fun _ => rfl⟩
      · obtain ⟨defs₁, value, hvalue, hkept⟩ := hquiet hname defs
        exact ⟨defs₁, value, hvalue, hkept, fun hmem => absurd hmem hname⟩
    obtain ⟨defs', hdefs, hlookup⟩ := ih (fun d hd => h d (List.mem_cons_of_mem _ hd))
      ((name, value) :: defs₁)
    refine ⟨defs', by rw [define, hvalue]; exact hdefs, fun other hother => ?_⟩
    rw [hlookup other hother, List.reverse_cons, List.lookup_append, List.lookup_cons,
      List.lookup_cons]
    cases ds.reverse.lookup other with
    | some found => rfl
    | none =>
      by_cases hsame : other = name
      · subst hsame
        simp [hnamed hother]
      · have hbeq : (other == name) = false := beq_false_of_ne hsame
        rw [hbeq]
        exact hkept other hother

/-! ### Nothing is added -/

theorem uncommentFrom_sublist (n : Nat) (written : Text) :
    (uncommentFrom n written).Sublist (List.replicate n '\\' ++ written) := by
  induction n, written using uncommentFrom.induct with
  | case1 n => simp [uncommentFrom]
  | case2 n rest ih =>
    rw [uncommentFrom]
    rwa [List.replicate_succ', List.append_assoc] at ih
  | case3 n rest heven =>
    rw [uncommentFrom, if_pos heven]
    exact ((List.replicate_sublist_replicate _).mpr (Nat.div_le_self n 2)).trans
      (List.sublist_append_left _ _)
  | case4 n rest hodd ih =>
    rw [uncommentFrom, if_neg hodd]
    exact ((List.replicate_sublist_replicate _).mpr (Nat.div_le_self n 2)).append (ih.cons_cons '#')
  | case5 n c rest hquote hcomment ih =>
    rw [uncommentFrom]
    · exact (List.Sublist.refl _).append (ih.cons_cons c)
    · exact hquote
    · exact hcomment

theorem readBack_sublist (value : Text) : (readBack value).Sublist value := by
  have hreturn : (dropReturn value).Sublist value := by
    unfold dropReturn
    split
    · exact List.dropLast_sublist value
    · exact List.Sublist.refl value
  exact (uncommentFrom_sublist 0 _).trans ((List.dropWhile_sublist _).trans hreturn)

/-- A text that begins with a digit is not read as nothing. -/
theorem readBack_digit {c : Char} (h : c.isDigit = true) (rest : Text) :
    readBack (c :: rest) ≠ [] := by
  have hnot : ∀ d : Char, d.isDigit = false → c ≠ d := by
    rintro d hd rfl
    rw [h] at hd
    cases hd
  have hreturn : dropReturn (c :: rest) = c :: dropReturn rest :=
    dropReturn_append (show [c].getLast? ≠ some '\r' by simpa using hnot '\r' rfl) rest
  have hspace : isSpace c = false := by
    rw [isSpace, Bool.or_eq_false_iff]
    refine ⟨decide_eq_false (hnot ' ' rfl), ?_⟩
    simp only [Char.isDigit, Bool.and_eq_true, decide_eq_true_eq] at h
    have : 48 ≤ c.toNat := h.1
    simp only [Bool.and_eq_false_iff, decide_eq_false_iff_not]
    omega
  rw [readBack, hreturn, argument, List.dropWhile_cons, hspace, if_neg (by decide), uncommentFrom]
  · exact List.cons_ne_nil _ _
  · exact hnot '\\' rfl
  · exact hnot '#' rfl

theorem inQuotes_sublist {written passed : Text} (h : inQuotes written = some passed) :
    passed.Sublist written := by
  induction written using inQuotes.induct generalizing passed with
  | case1 =>
    cases h
    exact List.Sublist.refl _
  | case2 | case3 | case4 | case5 => cases h
  | case6 c rest hspecial ih =>
    rw [inQuotes, if_pos hspecial] at h
    obtain ⟨u, hu, rfl⟩ := Option.map_eq_some_iff.mp h
    exact ((ih hu).cons_cons c).cons _
  | case7 c rest hspecial ih =>
    rw [inQuotes, if_neg hspecial] at h
    obtain ⟨u, hu, rfl⟩ := Option.map_eq_some_iff.mp h
    exact (ih hu).cons_cons _
  | case8 c rest _ _ _ _ _ ih =>
    rw [inQuotes] at h
    · obtain ⟨u, hu, rfl⟩ := Option.map_eq_some_iff.mp h
      exact (ih hu).cons_cons c
    all_goals assumption

/-- The shell has no other meaning for the character between double quotes. -/
def staysQuoted (c : Char) : Bool := c ≠ '"' && c ≠ '$' && c ≠ '\x60' && c ≠ '\\'

/-- The shell passes on what is not special to it. -/
theorem inQuotes_append {front : Text} (h : front.all staysQuoted = true) (rest : Text) :
    inQuotes (front ++ rest) = (inQuotes rest).map (front ++ ·) := by
  induction front with
  | nil => simp
  | cons c front ih =>
    rw [List.all_cons, Bool.and_eq_true] at h
    obtain ⟨⟨⟨hdouble, hdollar⟩, hback⟩, hslash⟩ : ((c ≠ '"' ∧ c ≠ '$') ∧ c ≠ '\x60') ∧ c ≠ '\\' := by
      simpa [staysQuoted] using h.1
    rw [List.cons_append, inQuotes, ih h.2, Option.map_map]
    · rfl
    · exact hdouble
    · exact hdollar
    · exact hback
    · exact fun heq => absurd heq hslash
    · exact fun _ _ heq => absurd heq hslash

/-- The texts of a preset that are written as they are. -/
def writtenTexts (s : Settings) (presetName presetPath : Text) : List Text :=
  [presetName, s.kver.str repr, s.minimalFpu.str repr, s.buildrootFpu.str repr, s.mem.str repr,
   s.memBuildroot.str repr, s.timeout.str repr, s.sshPort.str repr, s.rootfsTy.str repr,
   s.compress.str repr, s.loader.str repr, presetPath]

variable {repr}

theorem archOf_ok {name : Value} {arch : Arch} (h : archOf repr name = .ok arch) :
    ∃ s, name = .string s ∧ archMap.lookup s = some arch := by
  unfold archOf at h
  split at h
  · rename_i s
    split at h
    · rename_i found hfound
      cases h
      exact ⟨s, rfl, hfound⟩
    · cases h
  · cases h
  · cases h
  · cases h

theorem lookup_archMap {s : Text} {arch : Arch} (h : archMap.lookup s = some arch) :
    (s = text "riscv32" ∧ arch = rv32) ∨ (s = text "riscv64" ∧ arch = rv64) := by
  simp only [archMap, List.lookup_cons, List.lookup_nil] at h
  split at h
  · rename_i heq
    exact .inl ⟨beq_iff_eq.mp heq, (Option.some.inj h).symm⟩
  split at h
  · rename_i heq
    exact .inr ⟨beq_iff_eq.mp heq, (Option.some.inj h).symm⟩
  · cases h

theorem settings_arch {cfg : Value} {s : Settings} (h : settings repr cfg = .ok s) :
    s.arch = rv32 ∨ s.arch = rv64 := by
  obtain ⟨arch, harch, h⟩ := Python.bind_ok h
  cases h
  obtain ⟨name, _, hlookup⟩ := archOf_ok harch
  exact (lookup_archMap hlookup).imp And.right And.right

theorem noBreak_append {a b : Text} (ha : '\n' ∉ a) (hb : '\n' ∉ b) : '\n' ∉ a ++ b := by
  rw [List.mem_append, not_or]
  exact ⟨ha, hb⟩

theorem noBreak_set {name value : Text} (h : isName name = true) (hvalue : '\n' ∉ value)
    (pad : Nat) : '\n' ∉ (Line.set name pad value).written := by
  have hname : '\n' ∉ name := by
    intro hc
    have := (isName_mem h hc).2
    revert this
    decide
  have hpad : '\n' ∉ List.replicate pad ' ' := by
    intro hc
    have := List.eq_of_mem_replicate hc
    revert this
    decide
  exact noBreak_append (noBreak_append (noBreak_append hname hpad) (by decide)) hvalue

/-- The texts of an architecture are words. -/
theorem noBreak_arch {arch : Arch} (h : arch = rv32 ∨ arch = rv64) :
    '\n' ∉ Nat.toDigits 10 arch.bits ∧ '\n' ∉ arch.fpuIsa ∧ '\n' ∉ arch.nofpuIsa ∧
      '\n' ∉ arch.fpuAbi ∧ '\n' ∉ arch.nofpuAbi := by
  rcases h with rfl | rfl <;> decide

theorem configLines_good {s : Settings} {presetName presetPath : Text}
    (harch : s.arch = rv32 ∨ s.arch = rv64)
    (hone : ∀ t ∈ writtenTexts repr s presetName presetPath, OneLine t) :
    ∀ line ∈ configLines repr s presetName, line.ok = true ∧ '\n' ∉ line.written := by
  have hbreak : ∀ t ∈ writtenTexts repr s presetName presetPath, '\n' ∉ t :=
    fun t ht => (hone t ht).1
  simp only [writtenTexts, List.forall_mem_cons] at hbreak
  obtain ⟨hname, hkver, hminimal, hbuildroot, hmem, hmemBuildroot, htimeout, hssh, hrootfs,
    hcompress, hloader, _⟩ := hbreak
  obtain ⟨hbits, hfpuIsa, hnofpuIsa, hfpuAbi, hnofpuAbi⟩ := noBreak_arch harch
  have hfpu : ∀ (v : Value) (isa nofpu : Text), '\n' ∉ isa → '\n' ∉ nofpu →
      '\n' ∉ if v.truth then isa else nofpu := by
    intro v isa nofpu hisa hnofpu
    split
    · exact hisa
    · exact hnofpu
  have htime : '\n' ∉ if s.timeout.truth then s.timeout.str repr else [] := by
    split
    · exact htimeout
    · exact List.not_mem_nil
  simp only [configLines, List.forall_mem_cons]
  refine ⟨⟨rfl, by decide⟩, ⟨rfl, noBreak_append (by decide) hname⟩, ⟨rfl, by decide⟩,
    ⟨rfl, noBreak_set rfl hname _⟩, ⟨rfl, noBreak_set rfl hbits _⟩,
    ⟨rfl, noBreak_set rfl hkver _⟩, ⟨rfl, by decide⟩,
    ⟨rfl, noBreak_append (noBreak_append (by decide) hminimal) (by decide)⟩,
    ⟨rfl, noBreak_set rfl (hfpu _ _ _ hfpuIsa hnofpuIsa) _⟩,
    ⟨rfl, noBreak_set rfl (hfpu _ _ _ hfpuAbi hnofpuAbi) _⟩, ⟨rfl, by decide⟩,
    ⟨rfl, noBreak_append (noBreak_append (by decide) hbuildroot) (by decide)⟩,
    ⟨rfl, noBreak_set rfl (hfpu _ _ _ hfpuIsa hnofpuIsa) _⟩,
    ⟨rfl, noBreak_set rfl (hfpu _ _ _ hfpuAbi hnofpuAbi) _⟩, ⟨rfl, by decide⟩,
    ⟨rfl, noBreak_set rfl hmem _⟩, ⟨rfl, noBreak_set rfl hmemBuildroot _⟩,
    ⟨rfl, noBreak_set rfl htime _⟩, ⟨rfl, noBreak_set rfl hssh _⟩, ⟨rfl, by decide⟩,
    ⟨rfl, by decide⟩, ⟨rfl, noBreak_set rfl hrootfs _⟩, ⟨rfl, noBreak_set rfl hcompress _⟩,
    ⟨rfl, noBreak_set rfl hloader _⟩, List.forall_mem_nil _⟩

theorem distroLines_good {s : Settings} {presetPath : Text}
    (harch : s.arch = rv32 ∨ s.arch = rv64) (hpath : OneLine presetPath) :
    ∀ line ∈ distroLines s presetPath, line.ok = true ∧ '\n' ∉ line.written := by
  obtain ⟨_, hfpuIsa, _, hfpuAbi, _⟩ := noBreak_arch harch
  simp only [distroLines, List.forall_mem_cons]
  exact ⟨⟨rfl, noBreak_set rfl hpath.1 _⟩, ⟨rfl, noBreak_set rfl (by decide) _⟩,
    ⟨rfl, noBreak_set rfl hfpuIsa _⟩, ⟨rfl, noBreak_set rfl hfpuAbi _⟩, List.forall_mem_nil _⟩

/-- The lines of the file are the common ones, and those of a distribution. -/
theorem allLines_ok {cfg : Value} {presetName presetPath : Text} {lines : List Line}
    {s : Settings} (hs : settings repr cfg = .ok s)
    (h : allLines repr cfg presetName presetPath = .ok lines) :
    lines = configLines repr s presetName ∨
      lines = configLines repr s presetName ++ distroLines s presetPath := by
  simp only [allLines, hs] at h
  change (if isDistro s then _ else _ : Except Refusal (List Line)) = .ok lines at h
  split at h
  · split at h
    · cases h
    · cases h
      exact .inr rfl
  · cases h
    exact .inl rfl

/-- A line goes on as the text at its end does. -/
theorem ends_append {front : Text} (hreturn : front.getLast? ≠ some '\r')
    (hquote : front.getLast? ≠ some '\\') (value : Text) : Ends (front ++ value) ↔ Ends value := by
  have hhead : ∀ c ∈ front.reverse.head?, (c = '\\') = False := by
    intro c hc
    rw [List.head?_reverse] at hc
    exact eq_false fun heq => hquote (heq ▸ hc)
  have hnone : front.reverse.takeWhile (· = '\\') = [] := by
    cases hrev : front.reverse with
    | nil => rfl
    | cons c rest =>
      rw [hrev] at hhead
      rw [List.takeWhile_cons_of_neg]
      simp [hhead c rfl]
  rw [Ends, Ends, dropReturn_append hreturn, continues, continues, List.reverse_append,
    List.takeWhile_append, hnone]
  split
  · rename_i hall
    rw [List.append_nil, (List.takeWhile_prefix _).eq_of_length hall]
  · exact Iff.rfl

theorem ends_set {name : Text} {pad : Nat} {value : Text} :
    Ends (Line.set name pad value).written ↔ Ends value := by
  apply ends_append
  · simp [text]
  · simp [text]

theorem ends_closed (front : Text) : Ends (front ++ text ")") := by
  have hlast : (front ++ text ")").getLast? = some ')' := by simp [text]
  rw [Ends, dropReturn, hlast, if_neg (by decide), continues, List.reverse_append]
  rfl

/-- The texts of an architecture are expanded to themselves. -/
theorem plain_arch {arch : Arch} (h : arch = rv32 ∨ arch = rv64) :
    Plain (Nat.toDigits 10 arch.bits) ∧ Plain arch.fpuIsa ∧ Plain arch.nofpuIsa ∧
      Plain arch.fpuAbi ∧ Plain arch.nofpuAbi := by
  rcases h with rfl | rfl <;> decide

/-- The variables that a package of the variant is compared by. -/
def comparedNames (buildroot : Bool) : List Text :=
  [text "SYSTEM_PRESET", text "BITS", text "KERNEL_VERSION",
   if buildroot then text "QEMU_MEM_BUILDROOT" else text "QEMU_MEM"]

variable (repr) in
def ramText (s : Settings) (buildroot : Bool) : Text :=
  (if buildroot then s.memBuildroot else s.mem).str repr

/-- Make reads each text as a line of its own, the compared ones as they are,
and comes to no harm with the others. -/
structure Legible (repr : Value → Text) (expand : Expansion) (s : Settings)
    (presetName presetPath file : Text) (buildroot : Bool) : Prop where
  oneLine : ∀ t ∈ writtenTexts repr s presetName presetPath, OneLine t
  plain : ∀ t ∈ [presetName, s.kver.str repr, ramText repr s buildroot], Plain t
  memory : Ends (s.mem.str repr)
  quiet : ∀ d ∈ definitions file, d.1 ∉ comparedNames buildroot →
    Quiet expand (comparedNames buildroot) d.2

variable (repr) in
/-- The lines up to the last one that is compared. -/
def frontLines (s : Settings) (presetName : Text) (buildroot : Bool) : List Line :=
  (configLines repr s presetName).take (if buildroot then 17 else 16)

theorem frontLines_ends {s : Settings} {presetName : Text} {buildroot : Bool}
    (harch : s.arch = rv32 ∨ s.arch = rv64)
    (hplain : ∀ t ∈ [presetName, s.kver.str repr, ramText repr s buildroot], Plain t)
    (hmemory : Ends (s.mem.str repr)) :
    ∀ line ∈ frontLines repr s presetName buildroot, Ends line.written := by
  simp only [List.forall_mem_cons] at hplain
  obtain ⟨hname, hkver, hram, _⟩ := hplain
  obtain ⟨hbits, hfpuIsa, hnofpuIsa, hfpuAbi, hnofpuAbi⟩ := plain_arch harch
  have hfpu : ∀ (v : Value) (isa nofpu : Text), Plain isa → Plain nofpu →
      Ends (if v.truth then isa else nofpu) := by
    intro v isa nofpu hisa hnofpu
    split
    · exact hisa.2
    · exact hnofpu.2
  have hfront : ∀ line ∈ (configLines repr s presetName).take 16, Ends line.written := by
    simp only [configLines, List.take_succ_cons, List.take_zero, List.forall_mem_cons]
    exact ⟨by decide, (ends_append (by decide) (by decide) _).mpr hname.2, by decide,
      ends_set.mpr hname.2, ends_set.mpr hbits.2, ends_set.mpr hkver.2, by decide,
      ends_closed _, ends_set.mpr (hfpu _ _ _ hfpuIsa hnofpuIsa),
      ends_set.mpr (hfpu _ _ _ hfpuAbi hnofpuAbi), by decide, ends_closed _,
      ends_set.mpr (hfpu _ _ _ hfpuIsa hnofpuIsa), ends_set.mpr (hfpu _ _ _ hfpuAbi hnofpuAbi),
      by decide, ends_set.mpr hmemory, List.forall_mem_nil _⟩
  cases buildroot with
  | false => exact hfront
  | true =>
    intro line hline
    have hsplit : frontLines repr s presetName true =
        (configLines repr s presetName).take 16 ++
          [.set (text "QEMU_MEM_BUILDROOT") 0 (s.memBuildroot.str repr)] := rfl
    rw [hsplit] at hline
    rcases List.mem_append.mp hline with hline | hline
    · exact hfront line hline
    · rw [List.mem_singleton.mp hline]
      exact ends_set.mpr hram.2

def Line.name? : Line → Option Text
  | .note _ => none
  | .set name _ _ => some name

/-- Behind these lines there is no other definition of a compared variable. -/
theorem rest_names {s : Settings} {presetName presetPath : Text} {lines : List Line}
    (buildroot : Bool) (h : lines = configLines repr s presetName ∨
      lines = configLines repr s presetName ++ distroLines s presetPath) :
    ∃ rest, lines = frontLines repr s presetName buildroot ++ rest ∧
      ∀ name pad value, .set name pad value ∈ rest → name ∉ comparedNames buildroot := by
  refine ⟨lines.drop (if buildroot then 17 else 16), ?_, fun name pad value hmem => ?_⟩
  · rcases h with rfl | rfl <;> cases buildroot <;> rfl
  · have hname : name ∈ (lines.drop (if buildroot then 17 else 16)).filterMap Line.name? :=
      List.mem_filterMap.mpr ⟨_, hmem, rfl⟩
    have hall : ∀ name ∈ (lines.drop (if buildroot then 17 else 16)).filterMap Line.name?,
        name ∉ comparedNames buildroot := by
      rcases h with rfl | rfl
      · cases buildroot with
        | false =>
          change ∀ name ∈ ["QEMU_MEM_BUILDROOT", "QEMU_TIMEOUT", "SSH_PORT", "SYSTEM_ROOTFS",
            "SYSTEM_COMPRESS", "SYSTEM_LOADER"].map text, name ∉ comparedNames false
          decide
        | true =>
          change ∀ name ∈ ["QEMU_TIMEOUT", "SSH_PORT", "SYSTEM_ROOTFS", "SYSTEM_COMPRESS",
            "SYSTEM_LOADER"].map text, name ∉ comparedNames true
          decide
      · cases buildroot with
        | false =>
          change ∀ name ∈ ["QEMU_MEM_BUILDROOT", "QEMU_TIMEOUT", "SSH_PORT", "SYSTEM_ROOTFS",
            "SYSTEM_COMPRESS", "SYSTEM_LOADER", "DISTRO_PRESET", "KERNEL_VARIANT", "RISCV_ISA",
            "RISCV_ABI"].map text, name ∉ comparedNames false
          decide
        | true =>
          change ∀ name ∈ ["QEMU_TIMEOUT", "SSH_PORT", "SYSTEM_ROOTFS", "SYSTEM_COMPRESS",
            "SYSTEM_LOADER", "DISTRO_PRESET", "KERNEL_VARIANT", "RISCV_ISA",
            "RISCV_ABI"].map text, name ∉ comparedNames true
          decide
    exact hall name hname

theorem dollar_defined {value : Text} (h : '$' ∉ value) : '$' ∉ ' ' :: dropReturn value := by
  intro hmem
  obtain heq | hmem := List.mem_cons.mp hmem
  · cases heq
  · unfold dropReturn at hmem
    split at hmem
    · exact h ((List.dropLast_sublist value).subset hmem)
    · exact h hmem

/-- A compared variable is expanded to what is written. -/
theorem front_plain {s : Settings} {presetName : Text} {buildroot : Bool}
    (harch : s.arch = rv32 ∨ s.arch = rv64)
    (hplain : ∀ t ∈ [presetName, s.kver.str repr, ramText repr s buildroot], Plain t) :
    ∀ d ∈ (frontLines repr s presetName buildroot).filterMap Line.defines,
      d.1 ∈ comparedNames buildroot → '$' ∉ d.2 := by
  simp only [List.forall_mem_cons] at hplain
  obtain ⟨hname, hkver, hram, _⟩ := hplain
  obtain ⟨hbits, hfpuIsa, hnofpuIsa, hfpuAbi, hnofpuAbi⟩ := plain_arch harch
  have hfpu : ∀ (v : Value) (isa nofpu : Text), Plain isa → Plain nofpu →
      '$' ∉ ' ' :: dropReturn (if v.truth then isa else nofpu) := by
    intro v isa nofpu hisa hnofpu
    apply dollar_defined
    split
    · exact hisa.1
    · exact hnofpu.1
  have hisa : ∀ v : Value, '$' ∉ ' ' :: dropReturn
      (if v.truth then s.arch.fpuIsa else s.arch.nofpuIsa) :=
    fun v => hfpu v _ _ hfpuIsa hnofpuIsa
  have habi : ∀ v : Value, '$' ∉ ' ' :: dropReturn
      (if v.truth then s.arch.fpuAbi else s.arch.nofpuAbi) :=
    fun v => hfpu v _ _ hfpuAbi hnofpuAbi
  cases buildroot with
  | false =>
    simp only [frontLines, configLines, Bool.false_eq_true, if_false, List.take_succ_cons,
      List.take_zero, List.filterMap_cons, Line.defines, List.filterMap_nil, List.forall_mem_cons]
    exact ⟨fun _ => dollar_defined hname.1, fun _ => dollar_defined hbits.1,
      fun _ => dollar_defined hkver.1, fun _ => hisa _, fun _ => habi _, fun _ => hisa _,
      fun _ => habi _, fun _ => dollar_defined hram.1, List.forall_mem_nil _⟩
  | true =>
    simp only [frontLines, configLines, if_true, List.take_succ_cons, List.take_zero,
      List.filterMap_cons, Line.defines, List.filterMap_nil, List.forall_mem_cons]
    exact ⟨fun _ => dollar_defined hname.1, fun _ => dollar_defined hbits.1,
      fun _ => dollar_defined hkver.1, fun _ => hisa _, fun _ => habi _, fun _ => hisa _,
      fun _ => habi _, fun h => absurd h (by decide), fun _ => dollar_defined hram.1,
      List.forall_mem_nil _⟩

variable (repr) in
/-- The last definitions of the compared variables. -/
theorem front_lookup (s : Settings) (presetName : Text) (buildroot : Bool) :
    let defs := ((frontLines repr s presetName buildroot).filterMap Line.defines).reverse
    defs.lookup (text "SYSTEM_PRESET") = some (' ' :: dropReturn presetName) ∧
      defs.lookup (text "BITS") = some (' ' :: dropReturn (Nat.toDigits 10 s.arch.bits)) ∧
      defs.lookup (text "KERNEL_VERSION") = some (' ' :: dropReturn (s.kver.str repr)) ∧
      defs.lookup (if buildroot then text "QEMU_MEM_BUILDROOT" else text "QEMU_MEM") =
        some (' ' :: dropReturn (ramText repr s buildroot)) := by
  cases buildroot with
  | false => exact ⟨rfl, rfl, rfl, rfl⟩
  | true => exact ⟨rfl, rfl, rfl, rfl⟩

/-- What the Makefile has after the file. -/
structure Given (repr : Value → Text) (s : Settings) (presetName : Text) (buildroot : Bool)
    (v : Variables) : Prop where
  preset : v.systemPreset = readBack presetName
  bits : v.bits = Nat.toDigits 10 s.arch.bits
  version : v.kernelVersion = readBack (s.kver.str repr)
  memory : (if buildroot then v.qemuMemBuildroot else v.qemuMem) =
    readBack (ramText repr s buildroot)

/-- The definitions of the file: the compared variables have theirs in front. -/
theorem definitions_front {expand : Expansion} {cfg : Value} {presetName presetPath file : Text}
    {s : Settings} {buildroot : Bool} (hs : settings repr cfg = .ok s)
    (hfile : genMakeConfig repr cfg presetName presetPath = .ok file)
    (hlegible : Legible repr expand s presetName presetPath file buildroot) :
    ∃ behind, definitions file =
        (frontLines repr s presetName buildroot).filterMap Line.defines ++ behind ∧
      ∀ d ∈ behind, d.1 ∉ comparedNames buildroot := by
  obtain ⟨lines, hlines, hwritten⟩ := Python.bind_ok hfile
  cases hwritten
  have harch := settings_arch hs
  have hconfig := configLines_good harch hlegible.oneLine
  have hgood : ∀ line ∈ lines, line.ok = true ∧ '\n' ∉ line.written := by
    rcases allLines_ok hs hlines with rfl | rfl
    · exact hconfig
    · intro line hline
      rcases List.mem_append.mp hline with hline | hline
      · exact hconfig line hline
      · exact distroLines_good harch (hlegible.oneLine presetPath (by simp [writtenTexts])) line hline
  obtain ⟨rest, hsplit, hrest⟩ := rest_names buildroot (allLines_ok hs hlines)
  have hne : frontLines repr s presetName buildroot ++ rest ≠ [] := by
    cases buildroot <;> simp [frontLines, configLines]
  refine ⟨(logicalLines (rest.map Line.written ++ [[]])).filterMap assignment, ?_, fun d hd => ?_⟩
  · rw [hsplit] at hgood ⊢
    exact definitions_join hne
      (fun line hline => (hgood line (List.mem_append_left _ hline)).1)
      (frontLines_ends harch hlegible.plain hlegible.memory) fun line hline => (hgood line hline).2
  · obtain ⟨pad, value, hmem⟩ := defined_names (fun line hline => (hgood line (by
      rw [hsplit]
      exact List.mem_append_right _ hline)).1) hd
    exact hrest _ pad value hmem

/-- The variables of definitions that end like those in front. -/
theorem given_of_lookup {s : Settings} {presetName : Text} {buildroot : Bool} {defs : Defs}
    (harch : s.arch = rv32 ∨ s.arch = rv64)
    (h : ∀ name ∈ comparedNames buildroot, ∀ written,
      ((frontLines repr s presetName buildroot).filterMap Line.defines).reverse.lookup name =
        some written → defs.lookup name = some (argument written)) :
    Given repr s presetName buildroot (variablesOf defs) := by
  obtain ⟨hpreset, hbits, hkver, hram⟩ := front_lookup repr s presetName buildroot
  have hpreset := h (text "SYSTEM_PRESET") (by simp [comparedNames]) _ hpreset
  have hbits := h (text "BITS") (by simp [comparedNames]) _ hbits
  have hkver := h (text "KERNEL_VERSION") (by simp [comparedNames]) _ hkver
  have hram := h _ (by simp [comparedNames]) _ hram
  have hdigits : argument (' ' :: dropReturn (Nat.toDigits 10 s.arch.bits)) =
      Nat.toDigits 10 s.arch.bits := by
    rcases harch with h | h <;> rw [h] <;> decide
  rw [hdigits] at hbits
  constructor
  · rw [variablesOf, hpreset]
    rfl
  · rw [variablesOf, hbits]
    rcases harch with h | h <;> rw [h] <;> rfl
  · rw [variablesOf, hkver]
    rfl
  · cases buildroot with
    | false =>
      simp only [Bool.false_eq_true, if_false] at hram ⊢
      rw [variablesOf, hram]
      rfl
    | true =>
      simp only [if_true] at hram ⊢
      rw [variablesOf, hram]
      rfl

theorem included_genMakeConfig {expand : Expansion} (hexpand : Literal expand) {cfg : Value}
    {presetName presetPath file : Text} {s : Settings} {buildroot : Bool}
    (hs : settings repr cfg = .ok s)
    (hfile : genMakeConfig repr cfg presetName presetPath = .ok file)
    (hlegible : Legible repr expand s presetName presetPath file buildroot) :
    ∃ v, included expand file = some v ∧ Given repr s presetName buildroot v := by
  have harch := settings_arch hs
  obtain ⟨behind, hdefs, hbehind⟩ := definitions_front hs hfile hlegible
  have hall : ∀ d ∈ definitions file, (d.1 ∈ comparedNames buildroot → '$' ∉ d.2) ∧
      (d.1 ∉ comparedNames buildroot → Quiet expand (comparedNames buildroot) d.2) := by
    intro d hd
    refine ⟨fun hname => ?_, hlegible.quiet d hd⟩
    rw [hdefs] at hd
    rcases List.mem_append.mp hd with hd | hd
    · exact front_plain harch hlegible.plain d hd hname
    · exact absurd hname (hbehind d hd)
  obtain ⟨defs, hdefine, hlookup⟩ := define_lookup hexpand hall []
  refine ⟨variablesOf defs, by rw [included, hdefine, Option.map_some], given_of_lookup harch ?_⟩
  intro name hname written hfound
  have hnone : behind.reverse.lookup name = none := by
    rw [List.lookup_eq_none_iff]
    intro d hd
    rw [bne_iff_ne]
    rintro rfl
    exact hbehind d (List.mem_reverse.mp hd) hname
  rw [hlookup name hname, hdefs, List.reverse_append, List.lookup_append, hnone, hfound]
  rfl

end LinuxBuild.MakeConfig
