import LinuxBuild.Bytes
import LinuxBuild.Python

/-!
# Shell text

`while IFS= read -r line`, `cut -d=`, and what bash makes of an unquoted
expansion. Pathname expansion looks a pattern up with `listing`.
-/

namespace LinuxBuild.Sh

def isNul (c : Char) : Bool := c.toNat == 0

/-- The lines a text without its last newline stands for; `read` drops NULs. -/
def linesOf (text : Text) : List Text :=
  (text.splitOn '\n').map (·.filter (!isNul ·))

/-- `while IFS= read -r line`: a line ends in a newline, an unfinished one is
not seen by the body. -/
def readLines (text : Text) : List Text :=
  (text.splitOn '\n').dropLast.map (·.filter (!isNul ·))

theorem readLines_append (front rest : Text) :
    readLines (front ++ '\n' :: rest) = linesOf front ++ readLines rest := by
  simp only [readLines, linesOf, List.splitOn_append_cons_self]
  rw [List.dropLast_append_of_ne_nil (List.splitOn_ne_nil _ _), List.map_append]

/-- What is written as joined lines is read back line by line. -/
theorem readLines_join {lines : List Text} (h : lines ≠ []) :
    readLines (Python.join ['\n'] lines ++ ['\n']) = lines.flatMap linesOf := by
  have hend : readLines [] = [] := by decide
  induction lines with
  | nil => exact absurd rfl h
  | cons line lines ih =>
    cases lines with
    | nil =>
      have hone := readLines_append line []
      simpa [Python.join, hend] using hone
    | cons next lines =>
      have hrest := ih (by simp)
      simp only [Python.join, List.intercalate_cons_cons, List.append_assoc, List.cons_append,
        List.nil_append] at hrest ⊢
      rw [readLines_append, hrest]
      rfl

theorem linesOf_eq {text : Text} (h : '\n' ∉ text) : linesOf text = [text.filter (!isNul ·)] := by
  simp [linesOf, List.splitOn_eq_singleton h]

/-- `cut -d= -f1` and `cut -d= -f2-` of a line with a `=`. -/
def cutFirst (line : Text) : Text := line.takeWhile (· ≠ '=')
def cutRest (line : Text) : Text := (line.dropWhile (· ≠ '=')).drop 1

theorem cut_append {key : Text} (h : '=' ∉ key) (val : Text) :
    cutFirst (key ++ '=' :: val) = key ∧ cutRest (key ++ '=' :: val) = val := by
  have hk : ∀ c ∈ key, decide (c ≠ '=') = true := by
    intro c hc
    simp only [ne_eq, decide_eq_true_eq]
    rintro rfl
    exact h hc
  constructor
  · rw [cutFirst, List.takeWhile_append_of_pos hk]
    simp
  · rw [cutRest, List.dropWhile_append_of_pos hk]
    simp

def isBlank (c : Char) : Bool := c = ' ' || c = '\t' || c = '\n'
def isGlob (c : Char) : Bool := c = '*' || c = '?' || c = '[' || c = '\\'

/-- Neither lost, nor split at, nor looked up. -/
def isPlain (c : Char) : Bool := !isNul c && !isBlank c && !isGlob c

/-- Word splitting with the default `IFS`. -/
def fields (text : Text) : List Text := (text.splitOnP isBlank).filter (· ≠ [])

/-- A word that is a pattern becomes the names it matches, if it matches any. -/
def expandPath (listing : Text → List Text) (word : Text) : List Text :=
  if word.any isGlob then
    match listing word with
    | [] => [word]
    | names => names
  else [word]

/-- The arguments an unquoted expansion to `text` is. -/
def unquoted (listing : Text → List Text) (text : Text) : List Text :=
  (fields text).flatMap (expandPath listing)

/-- A field has no blank, and only characters of the text. -/
theorem mem_fields {text word : Text} {c : Char} (h : word ∈ fields text) (hc : c ∈ word) :
    isBlank c = false ∧ c ∈ text :=
  Bytes.mem_splitOnP (List.mem_filter.mp h).1 hc

theorem expandPath_none (word : Text) : expandPath (fun _ => []) word = [word] := by
  simp [expandPath]

theorem unquoted_none (text : Text) : unquoted (fun _ => []) text = fields text := by
  rw [unquoted, funext expandPath_none]
  simp

/-- A text of ordinary characters is one argument. -/
theorem unquoted_word (listing : Text → List Text) {word : Text} (hne : word ≠ [])
    (h : ∀ c ∈ word, isPlain c = true) : unquoted listing word = [word] := by
  simp only [isPlain, Bool.and_eq_true, Bool.not_eq_true'] at h
  have hfields : fields word = [word] := by
    simp [fields, List.splitOnP_eq_singleton fun c hc => (h c hc).1.2, hne]
  have hglob : word.any isGlob = false := by
    rw [List.any_eq_false]
    intro c hc
    simp [(h c hc).2]
  simp [unquoted, hfields, expandPath, hglob]

theorem filter_plain {line : Text} (h : ∀ c ∈ line, isNul c = false) :
    line.filter (!isNul ·) = line := by
  rw [List.filter_eq_self]
  intro c hc
  simp [h c hc]

end LinuxBuild.Sh
