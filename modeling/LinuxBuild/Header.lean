import LinuxBuild.Fetch
import LinuxBuild.Numeral

/-!
# The lines of a header block

`content_length` walks bytes and stops at a NUL. `contentLength_eq` says what
it returns in terms of the lines of the block: the first line with the name
counts, unless a NUL stands in a line before it.
-/

namespace LinuxBuild

/-- The line starts with the name, whatever the case of its letters. -/
def isContentLength (line : Bytes) : Bool := (line.take 15).map asciiLower == contentLengthName

/-- What stands after the name and the blanks. -/
def fieldText (line : Bytes) : Bytes := (line.drop 15).dropWhile isBlank

def writtenDigits (line : Bytes) : List Nat := ((fieldText line).takeWhile isDigit).map digit

/-- Digits, then the end of the line. -/
def wellFormed (line : Bytes) : Bool :=
  writtenDigits line ≠ [] && ((fieldText line).dropWhile isDigit).head?.all (· = cr)

/-- The number written in the line, however large. -/
def writtenLength (line : Bytes) : Option Nat :=
  if writtenDigits line = [] then none else some (Numeral.value (writtenDigits line))

def headerLines (block : Bytes) : List Bytes := block.splitOn lf

def lengthLine (block : Bytes) : Option Bytes := (headerLines block).find? isContentLength

/-- A NUL stands in a line before the first with the name. -/
def hiddenLength (block : Bytes) : Bool :=
  ((headerLines block).takeWhile (!isContentLength ·)).any (·.contains 0)

/-- The result of `content_length` on a line it reaches. -/
def lineLength (w : Word) (line : Bytes) : ContentLength :=
  if wellFormed line then
    match Numeral.accumulate w.bits 0 (writtenDigits line) with
    | some value => .length value
    | none => .invalid
  else .invalid

/-! ## One line -/

theorem headerNameMatches_take (line name : Bytes) :
    headerNameMatches line name = ((line.take name.length).map asciiLower == name) := by
  induction name generalizing line with
  | nil => simp [headerNameMatches]
  | cons n name ih =>
    cases line with
    | nil => simp [headerNameMatches]
    | cons c line =>
      simp only [headerNameMatches, ih, List.length_cons, List.take_succ_cons, List.map_cons]
      rfl

/-- No byte of the name is the lower case of a line feed, so a match ends
inside the line. -/
theorem headerNameMatches_append {line rest name : Bytes} (h : lf ∉ name) :
    headerNameMatches (line ++ lf :: rest) name = headerNameMatches line name := by
  induction name generalizing line with
  | nil => cases line <;> rfl
  | cons n name ih =>
    simp only [List.mem_cons, not_or] at h
    cases line with
    | nil =>
      have hlf : asciiLower lf = lf := by decide
      have hne : (lf == n) = false := by simpa using h.1
      simp only [List.nil_append, headerNameMatches, hlf, hne, Bool.false_and]
    | cons c line => simp only [List.cons_append, headerNameMatches, ih h.2]

theorem matches_line (line rest : Bytes) :
    headerNameMatches (line ++ lf :: rest) contentLengthName = isContentLength line := by
  rw [headerNameMatches_append (by decide), headerNameMatches_take]
  rfl

theorem contentValue_eq (w : Word) (v : Nat) (hasDigit : Bool) (text : Bytes) :
    contentValue w v hasDigit text =
      match Numeral.accumulate w.bits v ((text.takeWhile isDigit).map digit) with
      | some value =>
        if (hasDigit || text.takeWhile isDigit ≠ []) &&
            (text.dropWhile isDigit).head?.any (fun c => c = cr || c = lf) then
          .length value
        else .invalid
      | none => .invalid := by
  induction text generalizing v hasDigit with
  | nil => simp [contentValue, Numeral.accumulate]
  | cons c text ih =>
    cases hc : isDigit c with
    | true =>
      simp only [contentValue, hc, if_true, List.takeWhile_cons, List.dropWhile_cons, List.map_cons,
        Numeral.accumulate]
      split
      · rfl
      · rw [ih]
        simp
    | false =>
      simp only [contentValue, hc, List.takeWhile_cons, List.dropWhile_cons]
      cases hasDigit <;> by_cases h1 : c = cr <;> by_cases h2 : c = lf <;>
        simp [h1, h2, Numeral.accumulate]

theorem isBlank_lf : isBlank lf = false := by decide

theorem isDigit_lf : isDigit lf = false := by decide

theorem dropWhile_append_stop {p : UInt8 → Bool} {xs ys : Bytes} (h : p lf = false) :
    (xs ++ lf :: ys).dropWhile p = xs.dropWhile p ++ lf :: ys := by
  induction xs with
  | nil => simp [h]
  | cons x xs ih =>
    simp only [List.cons_append, List.dropWhile_cons]
    split
    · exact ih
    · rfl

theorem takeWhile_append_stop {p : UInt8 → Bool} {xs ys : Bytes} (h : p lf = false) :
    (xs ++ lf :: ys).takeWhile p = xs.takeWhile p := by
  induction xs with
  | nil => simp [h]
  | cons x xs ih =>
    simp only [List.cons_append, List.takeWhile_cons, ih]

theorem length_of_isContentLength {line : Bytes} (h : isContentLength line = true) :
    15 ≤ line.length := by
  have := congrArg List.length (beq_iff_eq.mp h)
  simp only [List.length_map, List.length_take] at this
  have hname : contentLengthName.length = 15 := by decide
  omega

/-- The value of a line depends on the line alone. -/
theorem contentValue_line {w : Word} {line rest : Bytes} (hline : lf ∉ line)
    (h : isContentLength line = true) :
    contentValue w 0 false (((line ++ lf :: rest).drop 15).dropWhile isBlank) =
      lineLength w line := by
  rw [List.drop_append_of_le_length (length_of_isContentLength h), dropWhile_append_stop isBlank_lf,
    contentValue_eq, takeWhile_append_stop isDigit_lf, dropWhile_append_stop isDigit_lf]
  have hno : lf ∉ (fieldText line).dropWhile isDigit := fun hm =>
    hline (List.mem_of_mem_drop ((List.dropWhile_suffix _).subset
      ((List.dropWhile_suffix _).subset hm)))
  have hend : (((fieldText line).dropWhile isDigit) ++ lf :: rest).head?.any
      (fun c => c = cr || c = lf) = ((fieldText line).dropWhile isDigit).head?.all (· = cr) := by
    cases ha : (fieldText line).dropWhile isDigit with
    | nil => simp
    | cons c after =>
      rw [ha] at hno
      simp only [List.mem_cons, not_or] at hno
      simp [Ne.symm hno.1]
  simp only [fieldText] at hend
  simp only [lineLength, wellFormed, writtenDigits, fieldText, hend, Bool.false_or]
  generalize Numeral.accumulate w.bits 0 _ = r
  cases r with
  | none => simp
  | some value => simp

/-! ## All lines -/

/-- Within a line the walk looks for its end. -/
theorem contentLengthFrom_skip {w : Word} {line rest : Bytes} (h : lf ∉ line) :
    contentLengthFrom w false (line ++ lf :: rest) =
      if line.contains 0 then .absent else contentLengthFrom w true rest := by
  induction line with
  | nil =>
    have hz : lf ≠ 0 := by decide
    simp [contentLengthFrom, hz]
  | cons c line ih =>
    simp only [List.mem_cons, not_or] at h
    have hne : (c == lf) = false := by simpa using Ne.symm h.1
    simp only [List.cons_append, contentLengthFrom, hne, Bool.false_and, Bool.false_eq_true,
      if_false, ih h.2, List.contains_cons]
    by_cases hc : c = 0
    · simp [hc]
    · have : ((0 : UInt8) == c) = false := by simpa using Ne.symm hc
      simp [hc, this]

theorem contentLengthFrom_line {w : Word} {line rest : Bytes} (h : lf ∉ line) :
    contentLengthFrom w true (line ++ lf :: rest) =
      if isContentLength line then lineLength w line
      else if line.contains 0 then .absent else contentLengthFrom w true rest := by
  cases hm : isContentLength line with
  | true =>
    cases line with
    | nil => cases hm
    | cons c line =>
      have hc : c ≠ 0 := by
        rintro rfl
        have hhead := congrArg List.head? (beq_iff_eq.mp hm)
        rw [List.take_succ_cons, List.map_cons, List.head?_cons] at hhead
        exact absurd hhead (by decide)
      have hmatch := matches_line (c :: line) rest
      rw [hm, List.cons_append] at hmatch
      simp only [List.cons_append, contentLengthFrom, if_neg hc, hmatch, Bool.and_self, if_true]
      exact contentValue_line h hm
  | false =>
    have hmatch := matches_line line rest
    rw [hm] at hmatch
    simp only [Bool.false_eq_true, if_false]
    rw [← contentLengthFrom_skip h]
    cases line with
    | nil =>
      simp only [List.nil_append] at hmatch ⊢
      simp [contentLengthFrom, hmatch]
    | cons c line =>
      simp only [List.cons_append] at hmatch ⊢
      simp [contentLengthFrom, hmatch]

theorem contentLength_eq {w : Word} {block : Bytes} (h : block = [] ∨ block.getLast? = some lf) :
    contentLength w block =
      match lengthLine block with
      | none => .absent
      | some line => if hiddenLength block then .absent else lineLength w line := by
  unfold contentLength lengthLine hiddenLength headerLines
  induction block using Bytes.split_induction lf with
  | last b hb =>
    obtain rfl | hlast := h
    · rfl
    · exact absurd (List.mem_of_getLast? hlast) hb
  | piece l rest hl ih =>
    rw [List.splitOn_append_cons_self_of_not_mem hl, contentLengthFrom_line hl]
    have hrest : rest = [] ∨ rest.getLast? = some lf := by
      cases rest with
      | nil => exact .inl rfl
      | cons c rest =>
        right
        simpa [List.getLast?_append, List.getLast?_cons] using h
    cases hm : isContentLength l with
    | true => simp [hm]
    | false =>
      simp only [hm, Bool.false_eq_true, if_false, List.find?_cons, List.takeWhile_cons,
        Bool.not_false, if_true, List.any_cons]
      cases hz : l.contains 0 with
      | true =>
        simp only [if_true, Bool.true_or]
        split <;> rfl
      | false => simpa using ih hrest

end LinuxBuild
