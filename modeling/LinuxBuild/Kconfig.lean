import LinuxBuild.Fragment
import LinuxBuild.Sh

/-!
# Kernel configuration fragments

`gen-config.py` writes them, the make macro `apply_kconfig_fragment` replays
them as `scripts/config` calls.
-/

namespace LinuxBuild.Kconfig

inductive KVal
  | bool (b : Bool)
  | int (n : Int)
  | str (s : Text)

def isIdent (c : Char) : Bool := c.isAlphanum || c = '_'

/-- An entry of a `kernel.config` table. -/
structure Entry where
  key : Text
  val : KVal
  keyOk : key.all isIdent = true

/-- `str(n)`. -/
def intText : Int → Text
  | .ofNat n => Nat.toDigits 10 n
  | .negSucc n => '-' :: Nat.toDigits 10 (n + 1)

def fullKey (key : Text) : Text :=
  if Python.startswith key (text "CONFIG_") then key else text "CONFIG_" ++ key

def kconfigLine (key : Text) (val : KVal) : Text :=
  let full := fullKey key
  match val with
  | .bool true => full ++ text "=y"
  | .bool false => text "# " ++ full ++ text " is not set"
  | .int n => full ++ text "=" ++ intText n
  | .str s => full ++ text "=\"" ++ s ++ text "\""

/-! ## Written by `gen-config.py` -/

inductive Variant
  | minimal
  | buildroot
  | distro
  deriving DecidableEq

def Variant.name : Variant → Text
  | .minimal => text "minimal"
  | .buildroot => text "buildroot"
  | .distro => text "distro"

/-- What the kernel fragments are made of. A variant's table may stand under a
dotted key or nested. -/
structure KernelSettings where
  arch : Option Text
  compression : Option Text
  config : List Entry
  dotted : Variant → Option (List Entry)
  nested : Variant → List Entry

def kernelArchConfigsRv32 : List Entry :=
  [⟨text "NONPORTABLE", .bool true, by decide⟩, ⟨text "ARCH_RV64I", .bool false, by decide⟩,
   ⟨text "ARCH_RV32I", .bool true, by decide⟩]

def Entry.line (e : Entry) : Text := kconfigLine e.key e.val

def genKernelConfig (cfg : KernelSettings) : Text :=
  let lines :=
    [text "# Auto-generated shared kernel config — DO NOT EDIT",
     text "# Source: system.toml  ->  applied via scripts/config",
     [],
     text "# All supported RV32/RV64 targets implement compressed instructions.",
     text "CONFIG_RISCV_ISA_C=y",
     []] ++
    (if cfg.arch.getD (text "riscv64") = text "riscv32" then
      [text "# --- RV32 arch overrides ---"] ++ kernelArchConfigsRv32.map Entry.line ++ [[]]
     else []) ++
    (if cfg.compression.getD (text "gzip") = text "zstd" then
      [text "# --- zstd compression ---", kconfigLine (text "RD_ZSTD") (.bool true),
       kconfigLine (text "INITRAMFS_COMPRESSION_ZSTD") (.bool true), []]
     else []) ++
    (if cfg.config = [] then []
     else
      [text "# --- User overrides from [kernel.config] ---"] ++ cfg.config.map Entry.line ++ [[]])
  Python.join (text "\n") lines ++ text "\n"

def variantConfig (cfg : KernelSettings) (variant : Variant) : List Entry :=
  (cfg.dotted variant).getD (cfg.nested variant)

def genVariantKernelConfig (cfg : KernelSettings) (variant : Variant) : Text :=
  let lines :=
    [text "# Auto-generated " ++ variant.name ++ text " kernel config — DO NOT EDIT",
     text "# Source: system.toml [" ++ variant.name ++ text ".kernel.config]",
     []] ++
    (if variantConfig cfg variant = [] then []
     else (variantConfig cfg variant).map Entry.line ++ [[]])
  Python.join (text "\n") lines ++ text "\n"

/-! ## Replayed by `apply_kconfig_fragment` -/

/-- `s/^# \(CONFIG_[A-Za-z0-9_]*\) is not set/\1/` on a line that starts with
`# CONFIG_`. -/
def sedKey (line : Text) : Text :=
  let rest := line.drop 9
  let tail := rest.dropWhile isIdent
  if Python.startswith tail (text " is not set") then
    text "CONFIG_" ++ rest.takeWhile isIdent ++ tail.drop 11
  else line

/-- One turn of the loop: the argument vectors of the `scripts/config` calls. -/
def applyLine (listing : Text → List Text) (line : Text) : List (List Text) :=
  if Python.startswith line (text "# CONFIG_") && Python.endswith (line.drop 9) (text " is not set") then
    [text "--disable" :: Sh.unquoted listing (sedKey line)]
  else if line = [] || Python.startswith line (text "#") then []
  else if Python.startswith line (text "CONFIG_") && Python.endswith (line.drop 7) (text "=y") then
    [text "--enable" :: Sh.unquoted listing (Sh.cutFirst line)]
  else if Python.startswith line (text "CONFIG_") && (line.drop 7).contains '=' then
    [text "--set-val" :: Sh.unquoted listing (Sh.cutFirst line) ++
      Sh.unquoted listing ((Sh.cutRest line).filter (· ≠ '"'))]
  else []

def applyKconfigFragment (listing : Text → List Text) (fragment : Text) : List (List Text) :=
  (Sh.readLines fragment).flatMap (applyLine listing)

/-- `configure_kernel`: the shared fragment, then the variant's. -/
def configureKernel (listing : Text → List Text) (cfg : KernelSettings) (variant : Variant) :
    List (List Text) :=
  applyKconfigFragment listing (genKernelConfig cfg) ++
    applyKconfigFragment listing (genVariantKernelConfig cfg variant)

/-! ## The calls the tables ask for -/

def Entry.call (e : Entry) : List Text :=
  match e.val with
  | .bool true => [text "--enable", fullKey e.key]
  | .bool false => [text "--disable", fullKey e.key]
  | .int n => [text "--set-val", fullKey e.key, intText n]
  | .str s => [text "--set-val", fullKey e.key, text "\"" ++ s ++ text "\""]

/-- The entries that do not come from a table. -/
def derived (cfg : KernelSettings) : List Entry :=
  [⟨text "RISCV_ISA_C", .bool true, by decide⟩] ++
    (if cfg.arch.getD (text "riscv64") = text "riscv32" then kernelArchConfigsRv32 else []) ++
    (if cfg.compression.getD (text "gzip") = text "zstd" then
      [⟨text "RD_ZSTD", .bool true, by decide⟩,
       ⟨text "INITRAMFS_COMPRESSION_ZSTD", .bool true, by decide⟩]
     else [])

/-- One call for each entry, the variant's after the shared ones, whatever
files there are to be matched. -/
def Replays (cfg : KernelSettings) (variant : Variant) : Prop :=
  ∀ listing, configureKernel listing cfg variant =
    (derived cfg ++ cfg.config ++ variantConfig cfg variant).map Entry.call

def Entry.isString (e : Entry) : Bool :=
  match e.val with
  | .str _ => true
  | _ => false

/-! ## One line -/

def lineCalls (listing : Text → List Text) (line : Text) : List (List Text) :=
  (Sh.linesOf line).flatMap (applyLine listing)

theorem applyKconfigFragment_join (listing : Text → List Text) {lines : List Text}
    (h : lines ≠ []) :
    applyKconfigFragment listing (Python.join (text "\n") lines ++ text "\n") =
      lines.flatMap (lineCalls listing) := by
  have hread := Sh.readLines_join h
  rw [applyKconfigFragment, show text "\n" = ['\n'] from rfl, hread, List.flatMap_assoc]
  rfl

theorem fullKey_eq (key : Text) (h : key.all isIdent = true) :
    ∃ tail, fullKey key = text "CONFIG_" ++ tail ∧ tail.all isIdent = true := by
  unfold fullKey
  split
  · rename_i hstart
    obtain ⟨tail, rfl⟩ := Python.startswith_iff.mp hstart
    exact ⟨tail, rfl, (by simpa using h : _ ∧ _).2⟩
  · exact ⟨key, rfl, h⟩

theorem lineCalls_one (listing : Text → List Text) {line : Text} (h : '\n' ∉ line) :
    lineCalls listing line = applyLine listing (line.filter (!Sh.isNul ·)) := by
  simp [lineCalls, Sh.linesOf_eq h]

theorem plain_of_word {c : Char} (h : isIdent c = true ∨ c = '-') :
    Sh.isPlain c = true ∧ c ≠ '=' := by
  have hne : ∀ d : Char, isIdent d = false → d ≠ '-' → c ≠ d := by
    rintro d hd hdash rfl
    rcases h with h | h
    · rw [hd] at h
      cases h
    · exact hdash h
  have hnul : Sh.isNul c = false := by
    rw [Sh.isNul, beq_eq_false_iff_ne]
    intro h0
    exact hne '\x00' (by decide) (by decide) (Char.toNat_inj.mp h0)
  constructor
  · simp only [Sh.isPlain, hnul, Sh.isBlank, Sh.isGlob, hne ' ' (by decide) (by decide),
      hne '\t' (by decide) (by decide), hne '\n' (by decide) (by decide),
      hne '*' (by decide) (by decide), hne '?' (by decide) (by decide),
      hne '[' (by decide) (by decide), hne '\\' (by decide) (by decide)]
    rfl
  · exact hne '=' (by decide) (by decide)

/-- The symbol of an entry and the text of an integer are words. -/
def IsWord (word : Text) : Prop := ∀ c ∈ word, isIdent c = true ∨ c = '-'

theorem intText_word (n : Int) : IsWord (intText n) := by
  have hdigit : ∀ m c, c ∈ Nat.toDigits 10 m → isIdent c = true := by
    intro m c hc
    have := Nat.isDigit_of_mem_toDigits (by decide) (by decide) hc
    simp [isIdent, Char.isAlphanum, this]
  intro c hc
  cases n with
  | ofNat m => exact .inl (hdigit m c hc)
  | negSucc m =>
    rcases List.mem_cons.mp hc with rfl | hc
    · exact .inr rfl
    · exact .inl (hdigit _ c hc)

theorem intText_ends (n : Int) : ∃ front c, intText n = front ++ [c] ∧ c ≠ 'y' := by
  have hdigits : ∀ m, ∃ front c, Nat.toDigits 10 m = front ++ [c] ∧ c ≠ 'y' := by
    intro m
    rcases List.eq_nil_or_concat (Nat.toDigits 10 m) with hnil | ⟨front, c, heq⟩
    · exact absurd hnil Nat.toDigits_ne_nil
    · refine ⟨front, c, by rw [heq, List.concat_eq_append], ?_⟩
      rintro rfl
      have hmem : 'y' ∈ Nat.toDigits 10 m := by simp [heq]
      have := Nat.isDigit_of_mem_toDigits (by decide) (by decide) hmem
      simp at this
  cases n with
  | ofNat m => exact hdigits m
  | negSucc m =>
    obtain ⟨front, c, heq, hc⟩ := hdigits (m + 1)
    exact ⟨'-' :: front, c, by simp [intText, heq], hc⟩

theorem fullKey_word {key : Text} (h : key.all isIdent = true) : IsWord (fullKey key) := by
  obtain ⟨tail, heq, htail⟩ := fullKey_eq key h
  rw [heq]
  intro c hc
  left
  rcases List.mem_append.mp hc with hc | hc
  · have : (text "CONFIG_").all isIdent = true := by decide
    exact List.all_eq_true.mp this c hc
  · exact List.all_eq_true.mp htail c hc

theorem unquoted_isWord (listing : Text → List Text) {word : Text} (hne : word ≠ [])
    (h : IsWord word) : Sh.unquoted listing word = [word] :=
  Sh.unquoted_word listing hne fun c hc => (plain_of_word (h c hc)).1

theorem applyLine_config (listing : Text → List Text) (rest : Text) :
    applyLine listing (text "CONFIG_" ++ rest) =
      if Python.endswith rest (text "=y") then
        [text "--enable" :: Sh.unquoted listing (Sh.cutFirst (text "CONFIG_" ++ rest))]
      else if rest.contains '=' then
        [text "--set-val" :: Sh.unquoted listing (Sh.cutFirst (text "CONFIG_" ++ rest)) ++
          Sh.unquoted listing ((Sh.cutRest (text "CONFIG_" ++ rest)).filter (· ≠ '"'))]
      else [] := by
  have hhash : Python.startswith (text "CONFIG_" ++ rest) (text "#") = false := rfl
  have hnotset : Python.startswith (text "CONFIG_" ++ rest) (text "# CONFIG_") = false := rfl
  have hstart : Python.startswith (text "CONFIG_" ++ rest) (text "CONFIG_") = true := rfl
  have hne : text "CONFIG_" ++ rest ≠ [] := by simp [text]
  have hdrop : (text "CONFIG_" ++ rest).drop 7 = rest := rfl
  rw [applyLine, hnotset, hhash, hstart, hdrop]
  simp [hne]

variable (listing : Text → List Text) {key : Text}

theorem applyLine_enable (h : key.all isIdent = true) :
    applyLine listing (fullKey key ++ text "=y") = [[text "--enable", fullKey key]] := by
  obtain ⟨tail, heq, htail⟩ := fullKey_eq key h
  have hword := fullKey_word h
  rw [heq] at hword ⊢
  have hcut := (Sh.cut_append (fun hc => (plain_of_word (hword _ hc)).2 rfl) ['y']).1
  have hends : Python.endswith (tail ++ text "=y") (text "=y") = true := by
    simp [Python.endswith]
  rw [List.append_assoc, applyLine_config, if_pos hends, ← List.append_assoc]
  rw [show text "=y" = '=' :: ['y'] from rfl, hcut, unquoted_isWord listing (by simp [text]) hword]

theorem applyLine_set (front : Text) {c : Char} (h : key.all isIdent = true) (hc : c ≠ 'y') :
    applyLine listing (fullKey key ++ '=' :: (front ++ [c])) =
      [text "--set-val" :: fullKey key ::
        Sh.unquoted listing ((front ++ [c]).filter (· ≠ '"'))] := by
  obtain ⟨tail, heq, htail⟩ := fullKey_eq key h
  have hword := fullKey_word h
  rw [heq] at hword ⊢
  obtain ⟨hfirst, hrest⟩ :=
    Sh.cut_append (fun hc => (plain_of_word (hword _ hc)).2 rfl) (front ++ [c])
  have hends : Python.endswith (tail ++ '=' :: (front ++ [c])) (text "=y") = false := by
    simp [Python.endswith, List.isSuffixOf, text, List.isPrefixOf, Ne.symm hc]
  rw [List.append_assoc, applyLine_config, hends, ← List.append_assoc, hfirst, hrest,
    unquoted_isWord listing (by simp [text]) hword]
  simp

theorem applyLine_disable (h : key.all isIdent = true) :
    applyLine listing (text "# " ++ fullKey key ++ text " is not set") =
      [[text "--disable", fullKey key]] := by
  obtain ⟨tail, heq, htail⟩ := fullKey_eq key h
  have hword := fullKey_word h
  rw [heq] at hword ⊢
  have hstart : Python.startswith (text "# " ++ (text "CONFIG_" ++ tail) ++ text " is not set")
      (text "# CONFIG_") = true := rfl
  have hdrop : (text "# " ++ (text "CONFIG_" ++ tail) ++ text " is not set").drop 9 =
      tail ++ text " is not set" := rfl
  have hends : Python.endswith (tail ++ text " is not set") (text " is not set") = true := by
    simp [Python.endswith]
  have htake : (tail ++ text " is not set").takeWhile isIdent =
      tail ++ (text " is not set").takeWhile isIdent :=
    List.takeWhile_append_of_pos (List.all_eq_true.mp htail)
  have hdropWhile : (tail ++ text " is not set").dropWhile isIdent =
      (text " is not set").dropWhile isIdent :=
    List.dropWhile_append_of_pos (List.all_eq_true.mp htail)
  have hsed : sedKey (text "# " ++ (text "CONFIG_" ++ tail) ++ text " is not set") =
      text "CONFIG_" ++ tail := by
    rw [sedKey, hdrop, htake, hdropWhile,
      show (text " is not set").takeWhile isIdent = [] from rfl,
      show (text " is not set").dropWhile isIdent = text " is not set" from rfl,
      show (text " is not set").drop 11 = [] from rfl,
      if_pos (show Python.startswith (text " is not set") (text " is not set") = true from rfl)]
    simp
  rw [applyLine, hstart, hdrop, hends, hsed, unquoted_isWord listing (by simp [text]) hword]
  rfl

/-! ## One entry -/

/-- `read` gets the line as it was written. -/
def IsClean (line : Text) : Prop := ∀ c ∈ line, Sh.isNul c = false ∧ c ≠ '\n'

theorem isClean_of_all {line : Text} (h : line.all (fun c => !Sh.isNul c && c != '\n') = true) :
    IsClean line := by
  simpa [IsClean, List.all_eq_true] using h

theorem isClean_append {front back : Text} (hf : IsClean front) (hb : IsClean back) :
    IsClean (front ++ back) := by
  intro c hc
  rcases List.mem_append.mp hc with hc | hc
  · exact hf c hc
  · exact hb c hc

theorem isClean_word {word : Text} (h : IsWord word) : IsClean word := by
  intro c hc
  have hplain := (plain_of_word (h c hc)).1
  simp only [Sh.isPlain, Sh.isBlank, Bool.and_eq_true, Bool.not_eq_true', Bool.or_eq_false_iff,
    decide_eq_false_iff_not] at hplain
  exact ⟨hplain.1.1, hplain.1.2.2⟩

theorem lineCalls_clean {line : Text} (h : IsClean line) :
    lineCalls listing line = applyLine listing line := by
  rw [lineCalls_one listing fun hc => (h _ hc).2 rfl, Sh.filter_plain fun c hc => (h c hc).1]

theorem filter_quote {word : Text} (h : IsWord word) : word.filter (· ≠ '"') = word := by
  rw [List.filter_eq_self]
  intro c hc
  rw [decide_eq_true_eq]
  rintro rfl
  rcases h _ hc with h | h <;> simp [isIdent] at h

/-- Booleans and integers come back as they went in. -/
theorem lineCalls_eq (e : Entry) (h : e.isString = false) :
    lineCalls listing e.line = [e.call] := by
  obtain ⟨key, val, hkey⟩ := e
  have hfull := isClean_word (fullKey_word hkey)
  have hy : IsClean (text "=y") := isClean_of_all (by decide)
  have hhash : IsClean (text "# ") := isClean_of_all (by decide)
  have hnotset : IsClean (text " is not set") := isClean_of_all (by decide)
  have heq : IsClean (text "=") := isClean_of_all (by decide)
  cases val with
  | bool b =>
    cases b with
    | true =>
      simp only [Entry.line, Entry.call, kconfigLine]
      rw [lineCalls_clean listing (isClean_append hfull hy)]
      exact applyLine_enable listing hkey
    | false =>
      simp only [Entry.line, Entry.call, kconfigLine]
      rw [lineCalls_clean listing (isClean_append (isClean_append hhash hfull) hnotset)]
      exact applyLine_disable listing hkey
  | int n =>
    have hword := intText_word n
    obtain ⟨front, c, hends, hc⟩ := intText_ends n
    simp only [Entry.line, Entry.call, kconfigLine]
    rw [lineCalls_clean listing (isClean_append (isClean_append hfull heq) (isClean_word hword))]
    have hset := applyLine_set listing front hkey hc
    rw [← hends, filter_quote hword, unquoted_isWord listing (by simp [hends]) hword] at hset
    rw [List.append_assoc]
    exact hset
  | str s => cases h

/-- A string on one line comes back without its quotes. -/
theorem lineCalls_str {s : Text} (h : key.all isIdent = true) (hs : '\n' ∉ s) :
    lineCalls listing (kconfigLine key (.str s)) =
      [text "--set-val" :: fullKey key ::
        Sh.unquoted listing ((s.filter (!Sh.isNul ·)).filter (· ≠ '"'))] := by
  have hfull := isClean_word (fullKey_word h)
  have hnl : '\n' ∉ kconfigLine key (.str s) := by
    simp only [kconfigLine, List.mem_append]
    rintro (((hc | hc) | hc) | hc)
    · exact (hfull _ hc).2 rfl
    · revert hc; decide
    · exact hs hc
    · revert hc; decide
  have hline : (kconfigLine key (.str s)).filter (!Sh.isNul ·) =
      fullKey key ++ '=' :: (('"' :: s.filter (!Sh.isNul ·)) ++ ['"']) := by
    have hsame := Sh.filter_plain fun c hc => (hfull c hc).1
    simp only [kconfigLine, List.filter_append, hsame, List.append_assoc]
    rfl
  rw [lineCalls_one listing hnl, hline, applyLine_set listing _ h (by decide)]
  simp

/-! ## The two fragments -/

def entryCalls (e : Entry) : List (List Text) := lineCalls listing e.line

/-- A section of a fragment replays as its entries. -/
theorem section_calls (heading : Text) (es : List Entry) (h : lineCalls listing heading = []) :
    ([heading] ++ es.map Entry.line ++ [[]]).flatMap (lineCalls listing) =
      es.flatMap (entryCalls listing) := by
  have hblank : lineCalls listing [] = [] := rfl
  have hlines : (es.map Entry.line).flatMap (lineCalls listing) = es.flatMap (entryCalls listing) :=
    List.flatMap_map ..
  simp only [List.flatMap_append, List.flatMap_cons, List.flatMap_nil, h, hblank, hlines,
    List.nil_append, List.append_nil]

theorem apply_shared (cfg : KernelSettings) :
    applyKconfigFragment listing (genKernelConfig cfg) =
      (derived cfg ++ cfg.config).flatMap (entryCalls listing) := by
  have hblank : lineCalls listing [] = [] := rfl
  have hauto : lineCalls listing
    (text "# Auto-generated shared kernel config — DO NOT EDIT") = [] := rfl
  have hsource : lineCalls listing
    (text "# Source: system.toml  ->  applied via scripts/config") = [] := rfl
  have htargets : lineCalls listing
    (text "# All supported RV32/RV64 targets implement compressed instructions.") = [] := rfl
  have hcompressed : lineCalls listing (text "CONFIG_RISCV_ISA_C=y") =
      entryCalls listing ⟨text "RISCV_ISA_C", .bool true, by decide⟩ := rfl
  have hrv32 := section_calls listing (text "# --- RV32 arch overrides ---")
    kernelArchConfigsRv32 rfl
  have hzstd : [text "# --- zstd compression ---", kconfigLine (text "RD_ZSTD") (.bool true),
      kconfigLine (text "INITRAMFS_COMPRESSION_ZSTD") (.bool true), []].flatMap
        (lineCalls listing) = _ :=
    section_calls listing (text "# --- zstd compression ---")
      [⟨text "RD_ZSTD", .bool true, by decide⟩,
       ⟨text "INITRAMFS_COMPRESSION_ZSTD", .bool true, by decide⟩] rfl
  have huser := section_calls listing (text "# --- User overrides from [kernel.config] ---")
    cfg.config rfl
  have hconfig : (if cfg.config = [] then [] else cfg.config.flatMap (entryCalls listing)) =
      cfg.config.flatMap (entryCalls listing) := by
    split
    · rename_i hnil
      rw [hnil, List.flatMap_nil]
    · rfl
  rw [genKernelConfig, applyKconfigFragment_join listing (by simp), derived,
    List.flatMap_append, List.flatMap_append, List.flatMap_append,
    List.flatMap_append, List.flatMap_append, List.flatMap_append]
  simp only [apply_ite (List.flatMap (lineCalls listing)),
    apply_ite (List.flatMap (entryCalls listing)), hrv32, hzstd, huser, hconfig,
    List.flatMap_cons, List.flatMap_nil, hauto, hsource, htargets, hblank, hcompressed,
    List.nil_append]

theorem apply_variant (cfg : KernelSettings) (variant : Variant) :
    applyKconfigFragment listing (genVariantKernelConfig cfg variant) =
      (variantConfig cfg variant).flatMap (entryCalls listing) := by
  have hblank : lineCalls listing [] = [] := rfl
  have hauto : lineCalls listing
      (text "# Auto-generated " ++ variant.name ++ text " kernel config — DO NOT EDIT") = [] := by
    cases variant <;> rfl
  have hsource : lineCalls listing
      (text "# Source: system.toml [" ++ variant.name ++ text ".kernel.config]") = [] := by
    cases variant <;> rfl
  rw [genVariantKernelConfig, applyKconfigFragment_join listing (by simp)]
  simp only [List.flatMap_append, List.flatMap_cons, List.flatMap_nil, hblank, hauto, hsource,
    List.nil_append]
  split
  · rename_i hnil
    simp [hnil]
  · simp only [List.flatMap_append, List.flatMap_cons, List.flatMap_nil, hblank, List.append_nil]
    exact List.flatMap_map ..

theorem configureKernel_eq (cfg : KernelSettings) (variant : Variant) :
    configureKernel listing cfg variant =
      (derived cfg ++ cfg.config ++ variantConfig cfg variant).flatMap (entryCalls listing) := by
  rw [configureKernel, apply_shared, apply_variant, ← List.flatMap_append]

theorem derived_isString {cfg : KernelSettings} {e : Entry} (h : e ∈ derived cfg) :
    e.isString = false := by
  simp only [derived, kernelArchConfigsRv32, List.mem_append] at h
  rcases h with (h | h) | h
  · revert e; decide
  · split at h <;> revert e <;> decide
  · split at h <;> revert e <;> decide

/-- Unless a file name brings one, no argument of a call has a newline. -/
theorem args_of_applyLine {line : Text} {call : List Text} {arg : Text}
    (h : call ∈ applyLine (fun _ => []) line) (ha : arg ∈ call) : '\n' ∉ arg := by
  have hfields : ∀ t, arg ∈ Sh.fields t → '\n' ∉ arg := by
    intro t ht hc
    have := (Sh.mem_fields ht hc).1
    simp [Sh.isBlank] at this
  have hflag : ∀ flag ∈ [text "--disable", text "--enable", text "--set-val"], '\n' ∉ flag := by
    decide
  simp only [List.forall_mem_cons] at hflag
  obtain ⟨hdisable, henable, hset, _⟩ := hflag
  simp only [applyLine, Sh.unquoted_none] at h
  split at h
  · cases List.mem_singleton.mp h
    rcases List.mem_cons.mp ha with rfl | ha
    · exact hdisable
    · exact hfields _ ha
  · split at h
    · cases h
    · split at h
      · cases List.mem_singleton.mp h
        rcases List.mem_cons.mp ha with rfl | ha
        · exact henable
        · exact hfields _ ha
      · split at h
        · cases List.mem_singleton.mp h
          rcases List.mem_append.mp ha with ha | ha
          · rcases List.mem_cons.mp ha with rfl | ha
            · exact hset
            · exact hfields _ ha
          · exact hfields _ ha
        · cases h

/-- A string that is asked for never is among the calls. -/
theorem call_not_replayed {key s : Text} (h : key.all isIdent = true) (hs : '\n' ∉ s) :
    lineCalls (fun _ => []) (kconfigLine key (.str s)) ≠
      [[text "--set-val", fullKey key, text "\"" ++ s ++ text "\""]] := by
  intro heq
  rw [lineCalls_str _ h hs] at heq
  simp only [List.cons.injEq, and_true, true_and, Sh.unquoted_none] at heq
  have hmem : text "\"" ++ s ++ text "\"" ∈
      Sh.fields ((s.filter (!Sh.isNul ·)).filter (· ≠ '"')) := by
    rw [heq]
    exact List.mem_singleton_self _
  have hquote : '"' ∈ text "\"" ++ s ++ text "\"" := by
    simp [text]
  simpa using (Sh.mem_fields hmem hquote).2

theorem flatMap_eq_map {α β : Type} {f : α → List β} {g : α → β} {l : List α}
    (h : ∀ a ∈ l, f a = [g a]) : l.flatMap f = l.map g := by
  rw [List.map_eq_flatMap, List.flatMap_def, List.flatMap_def, List.map_congr_left h]

/-- The fragments come back as they were meant exactly when no value is a
string: the decoder strips the quotes of every string. -/
theorem kconfig_fragments_replay_iff (cfg : KernelSettings) (variant : Variant) :
    Replays cfg variant ↔ ∀ e ∈ cfg.config ++ variantConfig cfg variant, e.isString = false := by
  constructor
  · intro h e he
    have hcalls := h fun _ => []
    rw [configureKernel_eq, List.append_assoc] at hcalls
    generalize hall : derived cfg ++ (cfg.config ++ variantConfig cfg variant) = entries at hcalls
    have he : e ∈ entries := hall ▸ List.mem_append_right _ he
    -- every entry asks for a call without newlines, so each stands on one line
    have hline : ∀ e ∈ entries, ∀ s, e.val = .str s → '\n' ∉ s := by
      intro e he s hval hs
      have hmem : e.call ∈ entries.map Entry.call := List.mem_map_of_mem he
      rw [← hcalls] at hmem
      obtain ⟨e', _, hcall⟩ := List.mem_flatMap.mp hmem
      obtain ⟨line, _, hcall⟩ := List.mem_flatMap.mp hcall
      have harg : text "\"" ++ s ++ text "\"" ∈ e.call := by
        simp [Entry.call, hval]
      exact args_of_applyLine hcall harg (by simp [hs])
    have hone : ∀ e ∈ entries,
        entryCalls (fun _ => []) e = [(entryCalls (fun _ => []) e).headD []] := by
      rintro ⟨key, val, hkey⟩ he
      cases val with
      | str s =>
        rw [entryCalls, Entry.line, lineCalls_str _ hkey (hline _ he s rfl)]
        rfl
      | bool b => rw [entryCalls, lineCalls_eq _ _ rfl]; rfl
      | int n => rw [entryCalls, lineCalls_eq _ _ rfl]; rfl
    rw [flatMap_eq_map hone] at hcalls
    have hcall := List.map_inj_left.mp hcalls e he
    obtain ⟨key, val, hkey⟩ := e
    cases val with
    | str s =>
      have hone := hone _ he
      rw [hcall] at hone
      exact absurd hone (call_not_replayed hkey (hline _ he s rfl))
    | bool b => rfl
    | int n => rfl
  · intro h listing
    rw [configureKernel_eq]
    apply flatMap_eq_map
    intro e he
    rw [List.append_assoc] at he
    rcases List.mem_append.mp he with he | he
    · exact lineCalls_eq listing e (derived_isString he)
    · exact lineCalls_eq listing e (h e he)

/-- A string of the distribution presets. -/
def distroConfig : KernelSettings where
  arch := some (text "riscv64")
  compression := none
  config := []
  dotted := fun _ => none
  nested := fun variant =>
    if variant = .distro then [⟨text "INITRAMFS_SOURCE", .str [], by decide⟩] else []

/-- `INITRAMFS_SOURCE = ""` reaches `--set-val` without a value. -/
theorem kconfig_string_loses_its_quotes :
    configureKernel (fun _ => []) distroConfig .distro =
      [[text "--enable", text "CONFIG_RISCV_ISA_C"],
       [text "--set-val", text "CONFIG_INITRAMFS_SOURCE"]] ∧
    ¬ Replays distroConfig .distro := by
  have hcalls : configureKernel (fun _ => []) distroConfig .distro =
      [[text "--enable", text "CONFIG_RISCV_ISA_C"],
       [text "--set-val", text "CONFIG_INITRAMFS_SOURCE"]] := by
    decide +kernel
  refine ⟨hcalls, fun h => ?_⟩
  have := hcalls.symm.trans (h fun _ => [])
  revert this
  decide +kernel

end LinuxBuild.Kconfig
