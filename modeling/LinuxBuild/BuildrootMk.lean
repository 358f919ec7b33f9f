import LinuxBuild.CutText
import LinuxBuild.Fragment

/-!
# `make_initramfs_buildroot`

The fragment wins over the defconfig: the settings of its symbols are deleted
from `.config` with `sed` before it is appended.
-/

namespace LinuxBuild.BuildrootMk

open Python (startswith startswith_iff)

/-! ## Files of lines -/

/-- Lines with a newline after each. -/
def terminated (lines : List Text) : Text := lines.flatMap (· ++ ['\n'])

/-- The lines of a file; the last one may lack its newline. -/
def fileLines (file : Text) : List Text :=
  let pieces := file.splitOn '\n'
  pieces.dropLast ++ if pieces.getLast? = some [] then [] else pieces.getLast?.toList

/-- `sed -i '...d'`. -/
def sedDelete (deleted : Text → Bool) (file : Text) : Text :=
  let pieces := file.splitOn '\n'
  terminated (pieces.dropLast.filter (!deleted ·)) ++
    (pieces.getLast?.toList.filter (!deleted ·)).flatten

/-! ## The symbols of the fragment -/

/-- `[A-Za-z0-9_]`. -/
def isSymbolChar (c : Char) : Bool := c.isAlphanum || c = '_'

/-- `grep -oE '^(# )?BR2_[A-Za-z0-9_]+'`: the text that is matched. -/
def grepSymbol (line : Text) : Option Text :=
  let mark := if startswith line (text "# ") then text "# " else []
  let rest := line.drop mark.length
  let name := (rest.drop 4).takeWhile isSymbolChar
  if startswith rest (text "BR2_") ∧ name ≠ [] then some (mark ++ (text "BR2_" ++ name)) else none

/-- `sed 's/^# //'`. -/
def stripMark (line : Text) : Text :=
  if startswith line (text "# ") then line.drop 2 else line

/-- `sort -u`. -/
def sortUnique (lines : List Text) : List Text :=
  lines.eraseDups.mergeSort fun a b => decide (a ≤ b)

/-- What `grep` prints; of a file with a NUL byte it says only that a binary file matches. -/
def grepped (fragment : Text) : List Text :=
  if '\x00' ∈ fragment then [] else (fileLines fragment).filterMap grepSymbol

def symbols (fragment : Text) : List Text := sortUnique ((grepped fragment).map stripMark)

/-- `/^SYM[= ]/d; /^# SYM is not set/d`. -/
def deletes (sym line : Text) : Bool :=
  startswith line (sym ++ ['=']) || startswith line (sym ++ [' ']) ||
    startswith line (text "# " ++ sym ++ text " is not set")

/-- `.config` after the loop and the `cat`. -/
def overridden (fragment config : Text) : Text :=
  (symbols fragment).foldl (fun file sym => sedDelete (deletes sym) file) config ++ fragment

/-! ## Lines of a symbol -/

def sets (sym line : Text) : Bool := startswith line (sym ++ ['='])

def unsets (sym line : Text) : Bool := line == text "# " ++ sym ++ text " is not set"

def about (sym line : Text) : Bool := sets sym line || unsets sym line

/-! ## Reading back what is written -/

theorem pieces_terminated {lines : List Text} (h : ∀ l ∈ lines, '\n' ∉ l) (rest : Text) :
    (terminated lines ++ rest).splitOn '\n' = lines ++ rest.splitOn '\n' := by
  induction lines with
  | nil => rfl
  | cons line lines ih =>
    obtain ⟨hline, hlines⟩ := List.forall_mem_cons.mp h
    have hsplit : terminated (line :: lines) ++ rest =
        line ++ '\n' :: (terminated lines ++ rest) := by
      simp [terminated]
    rw [hsplit, List.splitOn_append_cons_self_of_not_mem hline, ih hlines]
    rfl

theorem fileLines_terminated {lines : List Text} (h : ∀ l ∈ lines, '\n' ∉ l) (rest : Text) :
    fileLines (terminated lines ++ rest) = lines ++ fileLines rest := by
  obtain ⟨pieces, last, hrest⟩ := Bytes.splitOn_concat '\n' rest
  have hassoc : lines ++ (pieces ++ [last]) = (lines ++ pieces) ++ [last] :=
    (List.append_assoc ..).symm
  rw [fileLines, fileLines, pieces_terminated h, hrest, hassoc]
  simp only [List.dropLast_concat, List.getLast?_concat]
  rw [List.append_assoc]

theorem sedDelete_terminated {deleted : Text → Bool} {lines : List Text}
    (h : ∀ l ∈ lines, '\n' ∉ l) :
    sedDelete deleted (terminated lines) = terminated (lines.filter (!deleted ·)) := by
  have hpieces := pieces_terminated h []
  rw [List.append_nil] at hpieces
  have hnil : ([] : Text).splitOn '\n' = [[]] := rfl
  rw [sedDelete, hpieces, hnil]
  simp only [List.dropLast_concat, List.getLast?_concat, Option.toList_some]
  cases hdeleted : deleted [] <;> simp [hdeleted]

/-- The deletions one after another keep the lines that none of them deletes. -/
theorem sed_loop (syms : List Text) {lines : List Text} (h : ∀ l ∈ lines, '\n' ∉ l) :
    syms.foldl (fun file sym => sedDelete (deletes sym) file) (terminated lines) =
      terminated (lines.filter fun l => syms.all fun sym => !deletes sym l) := by
  induction syms generalizing lines with
  | nil => simp
  | cons sym syms ih =>
    rw [List.foldl_cons, sedDelete_terminated h, ih fun l hl => h l (List.mem_filter.mp hl).1,
      List.filter_filter]
    simp [Bool.and_comm]

theorem overridden_lines (fragment : Text) {lines : List Text} (h : ∀ l ∈ lines, '\n' ∉ l) :
    fileLines (overridden fragment (terminated lines)) =
      (lines.filter fun l => (symbols fragment).all fun sym => !deletes sym l) ++
        fileLines fragment := by
  rw [overridden, sed_loop _ h]
  exact fileLines_terminated (fun l hl => h l (List.mem_filter.mp hl).1) fragment

/-! ## Which symbols -/

/-- A line of the fragment begins with the symbol, which may stand behind `# `. -/
def Named (fragment sym : Text) : Prop :=
  ∃ line ∈ fileLines fragment, ∃ mark ∈ [[], text "# "], ∃ name rest,
    line = mark ++ (sym ++ rest) ∧ sym = text "BR2_" ++ name ∧ name ≠ [] ∧
      (∀ c ∈ name, isSymbolChar c) ∧ ∀ c ∈ rest.head?, ¬ isSymbolChar c

theorem takeWhile_word {name rest : Text} (hname : ∀ c ∈ name, isSymbolChar c)
    (hrest : ∀ c ∈ rest.head?, ¬ isSymbolChar c) :
    (name ++ rest).takeWhile isSymbolChar = name := by
  rw [List.takeWhile_append_of_pos hname]
  cases rest with
  | nil => simp
  | cons c rest => rw [List.takeWhile_cons_of_neg (hrest c rfl), List.append_nil]

theorem dropWhile_head (p : Char → Bool) (line : Text) :
    ∀ c ∈ (line.dropWhile p).head?, ¬ p c := by
  intro c hc
  have hnot := List.head?_dropWhile_not p line
  rw [Option.mem_def.mp hc] at hnot
  simpa using hnot

theorem mem_sortUnique {lines : List Text} {line : Text} :
    line ∈ sortUnique lines ↔ line ∈ lines := by
  rw [sortUnique, (List.mergeSort_perm _ _).mem_iff, List.mem_eraseDups]

/-- The mark is read off, whatever stands behind it. -/
theorem mark_read {mark rest : Text} (hmark : mark ∈ [[], text "# "])
    (hrest : startswith rest (text "BR2_") = true) :
    (if startswith (mark ++ rest) (text "# ") then text "# " else []) = mark := by
  obtain ⟨tail, rfl⟩ := startswith_iff.mp hrest
  rcases List.mem_pair.mp hmark with rfl | rfl
  · rfl
  · rfl

theorem grepSymbol_marked {mark name rest : Text} (hmark : mark ∈ [[], text "# "])
    (hne : name ≠ []) (hname : ∀ c ∈ name, isSymbolChar c)
    (hrest : ∀ c ∈ rest.head?, ¬ isSymbolChar c) :
    grepSymbol (mark ++ (text "BR2_" ++ name ++ rest)) = some (mark ++ (text "BR2_" ++ name)) := by
  have hstart : startswith (text "BR2_" ++ name ++ rest) (text "BR2_") = true :=
    startswith_iff.mpr ⟨name ++ rest, List.append_assoc ..⟩
  have hdrop : (text "BR2_" ++ name ++ rest).drop 4 = name ++ rest := by
    rw [List.append_assoc]
    rfl
  rw [grepSymbol, mark_read hmark hstart]
  simp only [List.drop_left, hdrop, takeWhile_word hname hrest, hstart]
  simp [hne]

theorem grepSymbol_some {line matched : Text} (h : grepSymbol line = some matched) :
    ∃ mark ∈ [[], text "# "], ∃ name rest, line = mark ++ (text "BR2_" ++ name ++ rest) ∧
      matched = mark ++ (text "BR2_" ++ name) ∧ name ≠ [] ∧ (∀ c ∈ name, isSymbolChar c) ∧
      ∀ c ∈ rest.head?, ¬ isSymbolChar c := by
  rw [grepSymbol] at h
  generalize hmark : (if startswith line (text "# ") then text "# " else []) = mark at h
  have hmem : mark ∈ [[], text "# "] := by
    rw [← hmark]
    split <;> simp
  have hline : line = mark ++ line.drop mark.length := by
    rw [← hmark]
    split
    next hstart =>
      obtain ⟨rest, rfl⟩ := startswith_iff.mp hstart
      rw [List.drop_left]
    next => rfl
  simp only [Option.ite_none_right_eq_some, Option.some.injEq] at h
  obtain ⟨⟨hstart, hne⟩, hmatched⟩ := h
  obtain ⟨tail, htail⟩ := startswith_iff.mp hstart
  have hdrop : (text "BR2_" ++ tail).drop 4 = tail := rfl
  rw [htail, hdrop] at hne hmatched
  refine ⟨mark, hmem, tail.takeWhile isSymbolChar, tail.dropWhile isSymbolChar, ?_,
    hmatched.symm, hne, List.all_eq_true.mp List.all_takeWhile, dropWhile_head _ _⟩
  rw [List.append_assoc, List.takeWhile_append_dropWhile, ← htail]
  exact hline

theorem stripMark_marked {mark name : Text} (hmark : mark ∈ [[], text "# "]) :
    stripMark (mark ++ (text "BR2_" ++ name)) = text "BR2_" ++ name := by
  rcases List.mem_pair.mp hmark with rfl | rfl
  · rfl
  · rfl

theorem grepped_text {fragment : Text} (h : '\x00' ∉ fragment) :
    grepped fragment = (fileLines fragment).filterMap grepSymbol := if_neg h

theorem mem_symbols {fragment sym : Text} (h : '\x00' ∉ fragment) :
    sym ∈ symbols fragment ↔ Named fragment sym := by
  rw [symbols, mem_sortUnique, grepped_text h, List.mem_map]
  constructor
  · rintro ⟨matched, hmem, rfl⟩
    obtain ⟨line, hline, hgrep⟩ := List.mem_filterMap.mp hmem
    obtain ⟨mark, hmark, name, rest, rfl, rfl, hne, hname, hrest⟩ := grepSymbol_some hgrep
    rw [stripMark_marked hmark]
    exact ⟨_, hline, mark, hmark, name, rest, rfl, rfl, hne, hname, hrest⟩
  · rintro ⟨line, hline, mark, hmark, name, rest, rfl, rfl, hne, hname, hrest⟩
    have hgrep := grepSymbol_marked hmark hne hname hrest
    exact ⟨_, List.mem_filterMap.mpr ⟨_, hline, hgrep⟩, stripMark_marked hmark⟩

/-! ## Which lines -/

theorem isSymbolChar_text : (text "BR2_").all isSymbolChar = true := by decide

theorem isSymbolChar_of_named {fragment sym : Text} (h : Named fragment sym) :
    ∀ c ∈ sym, isSymbolChar c := by
  obtain ⟨line, hline, mark, hmark, name, rest, rfl, rfl, hne, hname, hrest⟩ := h
  intro c hc
  rcases List.mem_append.mp hc with hc | hc
  · exact List.all_eq_true.mp isSymbolChar_text c hc
  · exact hname c hc

/-- A line that begins with two words ends them at the same place. -/
theorem word_unique {name other rest tail : Text} (h : name ++ rest = other ++ tail)
    (hname : ∀ c ∈ name, isSymbolChar c) (hrest : ∀ c ∈ rest.head?, ¬ isSymbolChar c)
    (hother : ∀ c ∈ other, isSymbolChar c) (htail : ∀ c ∈ tail.head?, ¬ isSymbolChar c) :
    name = other := by
  rw [← takeWhile_word hname hrest, h, takeWhile_word hother htail]

/-- What follows a symbol on one of its lines. -/
theorem ends_symbol {c : Char} (hc : c ∈ ['=', ' ']) (rest : Text) :
    ∀ d ∈ (c :: rest).head?, ¬ isSymbolChar d := by
  rintro d ⟨⟩
  rcases List.mem_pair.mp hc with rfl | rfl <;> decide

theorem ne_comment {sym rest tail : Text} {c : Char} (hsym : ∀ d ∈ sym, isSymbolChar d)
    (hc : c ∈ ['=', ' ']) : sym ++ c :: rest ≠ text "# " ++ tail := by
  intro h
  cases sym with
  | nil =>
    have hhash : c = '#' := (List.cons.inj h).1
    subst hhash
    simp at hc
  | cons d sym =>
    have hhash : d = '#' := (List.cons.inj h).1
    subst hhash
    exact absurd (hsym _ List.mem_cons_self) (by decide)

theorem deletes_iff {sym line : Text} :
    deletes sym line = true ↔ (∃ c ∈ ['=', ' '], ∃ rest, line = sym ++ c :: rest) ∨
      ∃ rest, line = text "# " ++ (sym ++ ' ' :: (text "is not set" ++ rest)) := by
  have htext : text " is not set" = ' ' :: text "is not set" := rfl
  simp [deletes, startswith_iff, htext]

theorem about_iff {sym line : Text} :
    about sym line = true ↔ (∃ rest, line = sym ++ '=' :: rest) ∨
      line = text "# " ++ (sym ++ ' ' :: text "is not set") := by
  have htext : text " is not set" = ' ' :: text "is not set" := rfl
  simp [about, sets, unsets, startswith_iff, htext]

theorem deletes_of_about {sym line : Text} (h : about sym line = true) :
    deletes sym line = true := by
  rw [deletes_iff]
  rcases about_iff.mp h with ⟨rest, rfl⟩ | rfl
  · exact .inl ⟨'=', by simp, rest, rfl⟩
  · exact .inr ⟨[], by rw [List.append_nil]⟩

/-- The expressions for one symbol meet no line of another, whatever the two have in common. -/
theorem eq_of_deletes_about {sym other line : Text} (hsym : ∀ c ∈ sym, isSymbolChar c)
    (hother : ∀ c ∈ other, isSymbolChar c) (hdel : deletes sym line = true)
    (habout : about other line = true) : sym = other := by
  have hequals : '=' ∈ ['=', ' '] := by simp
  have hblank : ' ' ∈ ['=', ' '] := by simp
  rcases deletes_iff.mp hdel with ⟨c, hc, rest, rfl⟩ | ⟨rest, rfl⟩ <;>
    rcases about_iff.mp habout with ⟨tail, heq⟩ | heq
  · exact word_unique heq hsym (ends_symbol hc _) hother (ends_symbol hequals _)
  · exact absurd heq (ne_comment hsym hc)
  · exact absurd heq.symm (ne_comment hother hequals)
  · have hwords := List.append_cancel_left heq
    exact word_unique hwords hsym (ends_symbol hblank _) hother (ends_symbol hblank _)

theorem named_of_about {fragment line name : Text} (hline : line ∈ fileLines fragment)
    (hne : name ≠ []) (hname : ∀ c ∈ name, isSymbolChar c)
    (habout : about (text "BR2_" ++ name) line = true) : Named fragment (text "BR2_" ++ name) := by
  rcases about_iff.mp habout with ⟨rest, rfl⟩ | rfl
  · exact ⟨_, hline, [], by simp, name, _, rfl, rfl, hne, hname, ends_symbol (by simp) _⟩
  · exact ⟨_, hline, text "# ", by simp, name, _, rfl, rfl, hne, hname, ends_symbol (by simp) _⟩

/-! ## The file that is built -/

theorem kept_not_about {fragment : Text} (lines : List Text) :
    (lines.filter fun l => (symbols fragment).all fun sym => !deletes sym l).filter
      (fun l => (symbols fragment).any (about · l)) = [] := by
  rw [List.filter_eq_nil_iff]
  intro line hline habout
  obtain ⟨-, hkept⟩ := List.mem_filter.mp hline
  obtain ⟨sym, hsym, habout⟩ := List.any_eq_true.mp habout
  have hnot := List.all_eq_true.mp hkept sym hsym
  rw [deletes_of_about habout] at hnot
  cases hnot

theorem kept_about {fragment sym : Text} (htext : '\x00' ∉ fragment)
    (hsym : ∀ c ∈ sym, isSymbolChar c) (hnot : ¬ Named fragment sym) (lines : List Text) :
    (lines.filter fun l => (symbols fragment).all fun sym => !deletes sym l).filter (about sym) =
      lines.filter (about sym) := by
  rw [List.filter_filter]
  apply List.filter_congr
  intro line _
  cases habout : about sym line with
  | false => rfl
  | true =>
    rw [Bool.true_and, List.all_eq_true]
    intro other hother
    have hnamed := (mem_symbols htext).mp hother
    cases hdel : deletes other line with
    | false => rfl
    | true =>
      have heq := eq_of_deletes_about (isSymbolChar_of_named hnamed) hsym hdel habout
      exact absurd (heq ▸ hnamed) hnot

/-- The fragment's lines are the only ones of its symbols; no other symbol loses a line, and a
`BR2_` symbol gains none. -/
theorem overridden_frame (fragment : Text) (htext : '\x00' ∉ fragment) (lines : List Text)
    (h : ∀ l ∈ lines, '\n' ∉ l) :
    let after := fileLines (overridden fragment (terminated lines))
    (∀ sym, sym ∈ symbols fragment ↔ Named fragment sym) ∧
    after.filter (fun l => (symbols fragment).any (about · l)) =
      (fileLines fragment).filter (fun l => (symbols fragment).any (about · l)) ∧
    ∀ sym, (∀ c ∈ sym, isSymbolChar c) → ¬ Named fragment sym →
      after.filter (about sym) =
        lines.filter (about sym) ++ (fileLines fragment).filter (about sym) ∧
      ((∃ name ≠ [], sym = text "BR2_" ++ name) →
        after.filter (about sym) = lines.filter (about sym)) := by
  intro after
  have hafter : after = _ := overridden_lines fragment h
  constructor
  · exact fun sym => mem_symbols htext
  constructor
  · rw [hafter, List.filter_append, kept_not_about, List.nil_append]
  · intro sym hsym hnot
    have hframe : after.filter (about sym) =
        lines.filter (about sym) ++ (fileLines fragment).filter (about sym) := by
      rw [hafter, List.filter_append, kept_about htext hsym hnot]
    constructor
    · exact hframe
    · rintro ⟨name, hne, rfl⟩
      have hnone : (fileLines fragment).filter (about (text "BR2_" ++ name)) = [] := by
        rw [List.filter_eq_nil_iff]
        intro line hline habout
        have hname : ∀ c ∈ name, isSymbolChar c :=
          fun c hc => hsym c (List.mem_append_right _ hc)
        exact hnot (named_of_about hline hne hname habout)
      rw [hframe, hnone, List.append_nil]

theorem overridden_frame_ext2 :
    let lines := [text "BR2_EXT=y", text "BR2_EXT2=y", text "BR2_EXT2_4=y"]
    let fragment := text "# BR2_EXT2 is not set\n"
    let after := fileLines (overridden fragment (terminated lines))
    '\x00' ∉ fragment ∧ (∀ l ∈ lines, '\n' ∉ l) ∧
    (∀ sym, sym ∈ symbols fragment ↔ Named fragment sym) ∧
    after.filter (fun l => (symbols fragment).any (about · l)) =
      (fileLines fragment).filter (fun l => (symbols fragment).any (about · l)) :=
  have hlines : ∀ l ∈ [text "BR2_EXT=y", text "BR2_EXT2=y", text "BR2_EXT2_4=y"], '\n' ∉ l := by
    decide
  have htext : '\x00' ∉ text "# BR2_EXT2 is not set\n" := by decide
  have hframe := overridden_frame _ htext _ hlines
  ⟨htext, hlines, hframe.1, hframe.2.1⟩

/-- `grep` looks for `BR2_`, so the defconfig's line of any other symbol stays; and it prints
nothing of a fragment with a NUL byte, so the defconfig's lines all stay. -/
theorem overridden_keeps_other :
    (let fragment := text "FOO=y\n"
     let config := text "FOO=n\n"
     (∀ c ∈ text "FOO", isSymbolChar c) ∧
      (fileLines fragment).filter (about (text "FOO")) = [text "FOO=y"] ∧
      (fileLines (overridden fragment config)).filter (about (text "FOO")) =
        [text "FOO=n", text "FOO=y"]) ∧
    (let fragment := text "BR2_A=\"\u0000\"\n"
     let config := text "BR2_A=n\n"
     (fileLines (overridden fragment config)).filter (about (text "BR2_A")) =
        [text "BR2_A=n", text "BR2_A=\"\u0000\""]) := by
  have hsymbols : ∀ fragment, grepped fragment = [] → symbols fragment = [] := by
    intro fragment hgrep
    rw [symbols, hgrep, sortUnique, List.map_nil, List.eraseDups_nil, List.mergeSort_nil]
  constructor
  · intro fragment config
    have hgrep : grepped fragment = [] := by decide
    have hsym : (text "FOO").all isSymbolChar = true := by decide
    rw [overridden, hsymbols fragment hgrep]
    exact ⟨List.all_eq_true.mp hsym, by decide, by decide⟩
  · intro fragment config
    have hgrep : grepped fragment = [] := by decide
    rw [overridden, hsymbols fragment hgrep]
    decide

end LinuxBuild.BuildrootMk
