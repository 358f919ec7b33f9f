import Mathlib.Algebra.GroupWithZero.Nat
import LinuxBuild.Util

/-!
# The shell loop of `payload/tiny_shell.c`

The console is the bytes `read_line` itself gets. A dispatch is the argument
vector handed to `run_command`.
-/

namespace LinuxBuild

def lineCapacity : Nat := 256
def argvCapacity : Nat := 16

theorem readLineFrom_shorter {capacity : Nat} {line input text rest : Bytes}
    (h : readLineFrom capacity line input = some (text, rest)) (hl : line.length + 1 < capacity) :
    rest.length < input.length := by
  induction input generalizing line with
  | nil => simp [readLineFrom, hl] at h
  | cons c input ih =>
    simp only [readLineFrom, if_pos hl] at h
    split at h
    · have := ih h hl
      simp only [List.length_cons]; omega
    · split at h
      · cases h; simp
      · by_cases hn : (line ++ [c]).length + 1 < capacity
        · have := ih h hn
          simp only [List.length_cons]; omega
        · cases input <;> simp only [readLineFrom, if_neg hn] at h <;> cases h <;> simp

/-- The `for (;;)` of `_start`, up to where it waits for the console. -/
def shellLoop (input : Bytes) : List (List Bytes) :=
  match h : readLine lineCapacity input with
  | none => []
  | some (line, rest) =>
    have := readLineFrom_shorter h (by decide)
    argvOf line argvCapacity :: shellLoop rest
termination_by input.length

/-! ## One argument vector -/

/-- The texts between blanks. -/
def words (text : Bytes) : List Bytes :=
  match h : text.dropWhile isSpace with
  | [] => []
  | c :: rest =>
    have : ((c :: rest).dropWhile (!isSpace ·)).length < text.length := by
      have hle := (List.dropWhile_suffix (l := text) isSpace).length_le
      have hc : isSpace c = false := by
        have := List.head?_dropWhile_not isSpace text
        rw [h] at this
        simpa using this
      have hrest := (List.dropWhile_suffix (l := rest) (!isSpace ·)).length_le
      rw [h] at hle
      simp only [List.dropWhile_cons, hc, Bool.not_false, if_true, List.length_cons] at hle ⊢
      omega
    (c :: rest).takeWhile (!isSpace ·) :: words ((c :: rest).dropWhile (!isSpace ·))
termination_by text.length

theorem words_cons {text rest : Bytes} {c : UInt8} (h : text.dropWhile isSpace = c :: rest) :
    words text = (c :: rest).takeWhile (!isSpace ·) :: words ((c :: rest).dropWhile (!isSpace ·)) := by
  rw [words]
  split
  · rename_i h'
    rw [h] at h'
    cases h'
  · rename_i c' rest' h'
    rw [h] at h'
    cases h'
    rfl

theorem words_nil {text : Bytes} (h : text.dropWhile isSpace = []) : words text = [] := by
  rw [words]
  split
  · rfl
  · rename_i h'
    rw [h] at h'
    cases h'

theorem cstr_append {word rest : Bytes} (hw : 0 ∉ word) (hr : rest.head?.all (· = 0) = true) :
    cstr (word ++ rest) = word := by
  unfold cstr
  rw [List.takeWhile_append_of_pos (by
    intro c hc
    simp only [ne_eq, decide_not, Bool.not_eq_true', decide_eq_false_iff_not]
    rintro rfl
    exact hw hc)]
  cases rest with
  | nil => simp
  | cons c rest =>
    have : c = 0 := by simpa using hr
    simp [this]

/-- The buffer after the scan: the byte at the cursor becomes a NUL. -/
def closeArgs (done rest : Bytes) : Bytes :=
  match rest with
  | [] => done
  | _ :: text => done ++ 0 :: text

/-- The overwritten buffer goes on from `done`, with a NUL if `rest` starts
with a blank, and the offsets point at the first words of `rest`. -/
theorem splitArgsFrom_spec (room : Nat) (done : Bytes) {rest : Bytes} (h0 : 0 ∉ rest) :
    ∃ tail, closeArgs (splitArgsFrom room done rest).2.1 (splitArgsFrom room done rest).2.2 =
        done ++ tail ∧
      (rest.head?.all isSpace = true → tail.head?.all (· = 0) = true) ∧
      (splitArgsFrom room done rest).1.map (fun offset => cstr
        ((closeArgs (splitArgsFrom room done rest).2.1 (splitArgsFrom room done rest).2.2).drop
          offset)) = (words rest).take room := by
  induction room generalizing done rest with
  | zero =>
    cases rest with
    | nil => exact ⟨[], by simp [splitArgsFrom, closeArgs], by simp, by simp [splitArgsFrom]⟩
    | cons c text =>
      exact ⟨0 :: text, by simp [splitArgsFrom, closeArgs], by simp, by simp [splitArgsFrom]⟩
  | succ room ih =>
    generalize hz : (rest.takeWhile isSpace).map (fun _ => (0 : UInt8)) = zeros
    have hzeros : rest.head?.all isSpace = true → ∀ more : Bytes, rest ≠ [] →
        (zeros ++ more).head?.all (· = 0) = true := by
      intro hs more hne
      cases rest with
      | nil => exact absurd rfl hne
      | cons c rest =>
        have hc : isSpace c = true := by simpa using hs
        rw [← hz, List.takeWhile_cons, if_pos hc]
        rfl
    cases hd : rest.dropWhile isSpace with
    | nil =>
      simp only [splitArgsFrom, hz, hd]
      refine ⟨zeros, by simp [closeArgs], fun hs => ?_, by simp [words_nil hd]⟩
      cases rest with
      | nil => rw [← hz]; rfl
      | cons c rest =>
        have := hzeros hs [] (List.cons_ne_nil _ _)
        rwa [List.append_nil] at this
    | cons c text =>
      have hsub : ∀ x ∈ c :: text, x ∈ rest := fun x hx =>
        (List.dropWhile_suffix isSpace).subset (hd ▸ hx)
      obtain ⟨tail, hbuffer, hhead, hargs⟩ := @ih
        (done ++ zeros ++ (c :: text).takeWhile (!isSpace ·)) ((c :: text).dropWhile (!isSpace ·))
        (fun h => h0 (hsub 0 ((List.dropWhile_suffix _).subset h)))
      have hspace : ((c :: text).dropWhile (!isSpace ·)).head?.all isSpace = true := by
        have := List.head?_dropWhile_not (!isSpace ·) (c :: text)
        cases hh : ((c :: text).dropWhile (!isSpace ·)).head? with
        | none => rfl
        | some x =>
          rw [hh] at this
          simpa using this
      simp only [splitArgsFrom, hz, hd]
      refine ⟨zeros ++ (c :: text).takeWhile (!isSpace ·) ++ tail, ?_, ?_, ?_⟩
      · rw [hbuffer]
        simp only [List.append_assoc]
      · intro hs
        rw [List.append_assoc]
        apply hzeros hs _
        rintro rfl
        cases hd
      · rw [List.map_cons, hargs, hbuffer, words_cons hd, List.take_succ_cons]
        congr 1
        rw [List.append_assoc, List.drop_left']
        · exact cstr_append (fun h => h0 (hsub 0 ((List.takeWhile_prefix _).subset h)))
            (hhead hspace)
        · rfl

/-- `split_args` leaves the first words of the line, as many as `argv` holds. -/
theorem argvOf_eq_words {line : Bytes} {capacity : Nat} (h0 : 0 ∉ line) :
    argvOf line capacity = (words line).take (capacity - 1) := by
  obtain ⟨tail, hbuffer, _, hargs⟩ :=
    splitArgsFrom_spec (capacity - 1) [] h0
  rw [← hargs]
  simp only [argvOf, splitArgs]
  revert hargs hbuffer
  generalize splitArgsFrom (capacity - 1) [] line = r
  obtain ⟨argv, done, rest⟩ := r
  intro hbuffer hargs
  cases rest <;> rfl

/-! ## One line -/

/-- The line as `read_line` stores it. -/
def stripCr (line : Bytes) : Bytes := line.filter (· ≠ cr)

/-- `read_line` on a terminated line: all of it, or its first `capacity - 1`
bytes with the rest left on the console. -/
theorem readLineFrom_line {capacity : Nat} (acc : Bytes) {line : Bytes} (rest : Bytes) (hl : lf ∉ line)
    (ha : acc.length < capacity) :
    (acc.length + (stripCr line).length + 1 < capacity ∧
      readLineFrom capacity acc (line ++ lf :: rest) = some (acc ++ stripCr line, rest)) ∨
    ∃ front back, line = front ++ back ∧ acc.length + (stripCr front).length + 1 = capacity ∧
      readLineFrom capacity acc (line ++ lf :: rest) =
        some (acc ++ stripCr front, back ++ lf :: rest) := by
  induction line generalizing acc with
  | nil =>
    by_cases hroom : acc.length + 1 < capacity
    · refine .inl ⟨hroom, ?_⟩
      have hne : lf ≠ cr := by decide
      simp only [List.nil_append, readLineFrom, if_pos hroom, if_neg hne]
      simp [stripCr]
    · refine .inr ⟨[], [], rfl, by simp only [stripCr, List.filter_nil, List.length_nil]; omega, ?_⟩
      simp [readLineFrom, hroom, stripCr]
  | cons c line ih =>
    simp only [List.mem_cons, not_or] at hl
    by_cases hroom : acc.length + 1 < capacity
    · by_cases hcr : c = cr
      · have hstrip : ∀ text, stripCr (c :: text) = stripCr text := fun text => by
          simp [stripCr, hcr]
        have hstep : readLineFrom capacity acc (c :: line ++ lf :: rest) =
            readLineFrom capacity acc (line ++ lf :: rest) := by
          simp only [List.cons_append, readLineFrom, if_pos hroom]
          exact if_pos hcr
        rw [hstep, hstrip]
        obtain h | ⟨front, back, rfl, hlen, h⟩ := ih acc hl.2 ha
        · exact .inl h
        · exact .inr ⟨c :: front, back, rfl, by rw [hstrip]; exact hlen, by rw [hstrip]; exact h⟩
      · have hstrip : ∀ text, stripCr (c :: text) = c :: stripCr text := fun text => by
          simp [stripCr, hcr]
        have hstep : readLineFrom capacity acc (c :: line ++ lf :: rest) =
            readLineFrom capacity (acc ++ [c]) (line ++ lf :: rest) := by
          simp only [List.cons_append, readLineFrom, if_pos hroom]
          rw [if_neg hcr, if_neg (Ne.symm hl.1)]
        rw [hstep, hstrip]
        obtain ⟨hlen, h⟩ | ⟨front, back, rfl, hlen, h⟩ :=
          ih (acc ++ [c]) hl.2 (by rw [List.length_append]; exact hroom)
        · refine .inl ⟨?_, by simpa only [List.append_assoc, List.singleton_append] using h⟩
          simp only [List.length_append, List.length_cons, List.length_nil] at hlen ⊢
          omega
        · refine .inr ⟨c :: front, back, rfl, ?_, by
            rw [hstrip]; simpa only [List.append_assoc, List.singleton_append] using h⟩
          rw [hstrip]
          simp only [List.length_append, List.length_cons, List.length_nil] at hlen ⊢
          omega
    · refine .inr ⟨[], c :: line, rfl, ?_, ?_⟩
      · simp only [stripCr, List.filter_nil, List.length_nil]
        omega
      · simp [readLineFrom, hroom, stripCr]

/-- A text cut where the line buffer is full. -/
def bufferfuls (text : Bytes) : List Bytes :=
  if text.length < 255 then [text] else text.take 255 :: bufferfuls (text.drop 255)
termination_by text.length
decreasing_by rw [List.length_drop]; omega

theorem bufferfuls_short {text : Bytes} (h : text.length < 255) : bufferfuls text = [text] := by
  rw [bufferfuls, if_pos h]

theorem bufferfuls_append {front back : Bytes} (h : front.length = 255) :
    bufferfuls (front ++ back) = front :: bufferfuls back := by
  rw [bufferfuls, if_neg (by rw [List.length_append]; omega), List.take_left' h, List.drop_left' h]

theorem bufferfuls_length (text : Bytes) : (bufferfuls text).length = text.length / 255 + 1 := by
  induction hn : text.length using Nat.strongRecOn generalizing text with
  | ind n ih =>
    rw [bufferfuls]
    split
    · simp only [List.length_cons, List.length_nil]
      omega
    · rw [List.length_cons, ih _ (by rw [List.length_drop]; omega) (text.drop 255) rfl,
        List.length_drop]
      omega

/-- What `run_command` gets for a text without NUL. -/
def dispatched (text : Bytes) : List Bytes := (words text).take 15

theorem shellLoop_some {input line rest : Bytes}
    (h : readLine lineCapacity input = some (line, rest)) :
    shellLoop input = argvOf line argvCapacity :: shellLoop rest := by
  rw [shellLoop]
  split
  · rename_i h'
    rw [h] at h'
    cases h'
  · rename_i h'
    rw [h] at h'
    cases h'
    rfl

theorem shellLoop_nil : shellLoop [] = [] := by
  rw [shellLoop]
  rfl

theorem not_mem_stripCr {line : Bytes} (h : 0 ∉ line) : 0 ∉ stripCr line :=
  fun h' => h (List.mem_filter.mp h').1

/-- Every bufferful of a line is dispatched as a line of its own. -/
theorem shellLoop_line {line rest : Bytes} (hl : lf ∉ line) (h0 : 0 ∉ line) :
    shellLoop (line ++ lf :: rest) =
      (bufferfuls (stripCr line)).map dispatched ++ shellLoop rest := by
  induction hn : line.length using Nat.strongRecOn generalizing line with
  | ind n ih =>
    obtain ⟨hlen, h⟩ | ⟨front, back, rfl, hlen, h⟩ :=
      @readLineFrom_line lineCapacity [] _ rest hl (by decide)
    · simp only [List.length_nil, Nat.zero_add, lineCapacity] at hlen
      rw [shellLoop_some h, List.nil_append, bufferfuls_short (by omega),
        argvOf_eq_words (not_mem_stripCr h0)]
      rfl
    · simp only [List.length_nil, Nat.zero_add, lineCapacity] at hlen
      simp only [List.mem_append, not_or] at hl h0
      have hfront : (stripCr front).length ≤ front.length := List.length_filter_le _ _
      rw [shellLoop_some h, List.nil_append, argvOf_eq_words (not_mem_stripCr h0.1),
        ih back.length (by rw [List.length_append] at hn; omega) hl.2 h0.2 rfl]
      rw [show stripCr (front ++ back) = stripCr front ++ stripCr back from List.filter_append _ _,
        bufferfuls_append (by omega)]
      rfl

/-! ## The whole console -/

/-- A line without its newline. -/
structure ConsoleLine where
  bytes : Bytes
  noNewline : lf ∉ bytes
  noNul : 0 ∉ bytes

namespace ConsoleLine

/-- The text of the line, without its cr returns. -/
def text (line : ConsoleLine) : Bytes := stripCr line.bytes

/-- The dispatch the line asks for: the split of its text, cut to the buffer. -/
def dispatch (line : ConsoleLine) : List Bytes := dispatched (line.text.take 255)

end ConsoleLine

def consoleInput (lines : List ConsoleLine) : Bytes := lines.flatMap fun line => line.bytes ++ [lf]

theorem shellLoop_lines (lines : List ConsoleLine) :
    shellLoop (consoleInput lines) =
      lines.flatMap fun line => (bufferfuls line.text).map dispatched := by
  induction lines with
  | nil => exact shellLoop_nil
  | cons line lines ih =>
    simp only [consoleInput, List.flatMap_cons, List.append_assoc, List.singleton_append]
    rw [shellLoop_line line.noNewline line.noNul]
    exact congrArg (_ ++ ·) ih

theorem shellLoop_length (lines : List ConsoleLine) :
    (shellLoop (consoleInput lines)).length =
      lines.length + (lines.map fun line => line.text.length / 255).sum := by
  rw [shellLoop_lines]
  induction lines with
  | nil => rfl
  | cons line lines ih =>
    simp only [List.flatMap_cons, List.length_append, List.length_map, bufferfuls_length,
      List.length_cons, List.map_cons, List.sum_cons] at ih ⊢
    omega

/-- One dispatch a line, of the line's own text: exactly when `read_line` has
room to reach the newline of every line. -/
theorem shell_dispatches_each_line_once_iff (lines : List ConsoleLine) :
    shellLoop (consoleInput lines) = lines.map (·.dispatch) ↔
      ∀ line ∈ lines, line.text.length ≤ 254 := by
  constructor
  · intro h line hline
    have hlen := congrArg List.length h
    rw [shellLoop_length, List.length_map] at hlen
    have hsum : (lines.map fun line => line.text.length / 255).sum = 0 := by omega
    have hzero := List.sum_eq_zero_iff_forall_eq_nat.mp hsum _
      (List.mem_map_of_mem (f := fun line => line.text.length / 255) hline)
    omega
  · intro h
    rw [shellLoop_lines]
    induction lines with
    | nil => rfl
    | cons line lines ih =>
      have hline := h line List.mem_cons_self
      rw [List.flatMap_cons, List.map_cons, ih fun l hl => h l (List.mem_cons_of_mem _ hl),
        bufferfuls_short (by omega), ConsoleLine.dispatch, List.take_of_length_le (by omega)]
      rfl

/-- A bufferful of spaces, then a command. -/
def overlongLine : ConsoleLine where
  bytes := List.replicate 255 ' '.toUInt8 ++ ascii "rm /init"
  noNewline := by decide
  noNul := by decide

theorem shell_runs_a_suffix :
    ¬ ∀ lines : List ConsoleLine,
      shellLoop (consoleInput lines) = lines.map (·.dispatch) := by
  intro h
  have hlen := congrArg List.length (h [overlongLine])
  have htext : overlongLine.text.length = 263 := by
    rw [ConsoleLine.text, overlongLine, stripCr, List.filter_append, List.filter_replicate,
      List.length_append, if_pos (by decide), List.length_replicate,
      show ((ascii "rm /init").filter (· ≠ cr)).length = 8 by decide]
  rw [shellLoop_length] at hlen
  simp [htext] at hlen

end LinuxBuild
