import Mathlib.Data.List.Basic
import LinuxBuild.Sh

/-!
# Simple commands

The tokens of a line of shell text, and the simple command a line without
operators is. A line whose meaning needs more than its text, an expansion of a
parameter, a command or a home directory, has no reading here.
-/

namespace LinuxBuild.Sh

/-- A character of a word, and whether it is quoted. -/
structure Piece where
  char : Char
  quoted : Bool
  deriving DecidableEq, Repr

abbrev Word := List Piece

inductive Token where
  | word (w : Word)
  | operator (op : Text)
  deriving DecidableEq, Repr

inductive Mode where
  | plain
  | escaped
  | single
  | double
  | doubleEscaped
  | comment
  deriving DecidableEq, Repr

/-- The tokens delimited so far, the token under way, and the quoting. -/
structure Lexer where
  done : List Token
  current : Option Token
  mode : Mode
  deriving DecidableEq, Repr

def operators : List Text :=
  [['\n'], ['&'], ['|'], [';'], ['<'], ['>'], ['('], [')'], ['&', '&'], ['|', '|'], [';', ';'],
   ['<', '<'], ['>', '>'], ['<', '&'], ['>', '&'], ['<', '>'], ['>', '|'], ['<', '<', '-']]

namespace Lexer

/-- The token under way is delimited. -/
def delimit (s : Lexer) : Lexer :=
  { s with done := s.done ++ s.current.toList, current := none }

/-- The word under way, or a new one. -/
def openWord (s : Lexer) : Lexer :=
  match s.current with
  | some (.word _) => s
  | _ => { s.delimit with current := some (.word []) }

def push (s : Lexer) (quoted : Bool) (c : Char) : Lexer :=
  match s.openWord.current with
  | some (.word w) => { s.openWord with current := some (.word (w ++ [⟨c, quoted⟩])) }
  | _ => s

/-- An operator goes on as long as it is one. -/
def pushOperator (s : Lexer) (c : Char) : Lexer :=
  match s.current with
  | some (.operator op) =>
    if operators.contains (op ++ [c]) then { s with current := some (.operator (op ++ [c])) }
    else { s.delimit with current := some (.operator [c]) }
  | _ => { s.delimit with current := some (.operator [c]) }

/-- The `-` of `<<-`. -/
def endsHereOperator (s : Lexer) : Bool := s.current == some (.operator ['<', '<'])

def inWord (s : Lexer) : Bool :=
  match s.current with
  | some (.word _) => true
  | _ => false

def stepPlain (s : Lexer) (c : Char) : Option Lexer :=
  if c = '\\' then some { s with mode := .escaped }
  else if c = '\'' then some { s.openWord with mode := .single }
  else if c = '"' then some { s.openWord with mode := .double }
  else if c = '$' ∨ c = '`' then none
  else if operators.contains [c] ∨ (c = '-' ∧ s.endsHereOperator) then some (s.pushOperator c)
  else if c = ' ' ∨ c = '\t' then some s.delimit
  else if c = '#' ∧ s.inWord = false then some { s.delimit with mode := .comment }
  else some (s.push false c)

def step (s : Lexer) (c : Char) : Option Lexer :=
  match s.mode with
  | .plain => s.stepPlain c
  | .escaped =>
    if c = '\n' then some { s with mode := .plain } else some { s.push true c with mode := .plain }
  | .single => some (if c = '\'' then { s with mode := .plain } else s.push true c)
  | .double =>
    if c = '"' then some { s with mode := .plain }
    else if c = '\\' then some { s with mode := .doubleEscaped }
    else if c = '$' ∨ c = '`' then none
    else some (s.push true c)
  | .doubleEscaped =>
    let s := { s with mode := .double }
    if c = '\n' then some s
    else if c = '$' ∨ c = '`' ∨ c = '"' ∨ c = '\\' then some (s.push true c)
    else some ((s.push true '\\').push true c)
  | .comment => if c = '\n' then { s with mode := .plain }.stepPlain c else some s

end Lexer

def lex (s : Lexer) (text : Text) : Option Lexer := text.foldlM Lexer.step s

/-- The tokens of a text; none if it ends in the middle of a quotation. -/
def tokens (text : Text) : Option (List Token) := do
  let s ← lex ⟨[], none, .plain⟩ text
  if s.mode = .plain ∨ s.mode = .comment then some s.delimit.done else none

/-! ## Words -/

namespace Word

def text (w : Word) : Text := w.map (·.char)

def isNameStart (c : Char) : Bool := c.isAlpha || c = '_'

def isNameChar (c : Char) : Bool := c.isAlphanum || c = '_'

/-- `name=value`, the name and the `=` unquoted. -/
def assignment? (w : Word) : Option (Text × Word) :=
  let name := w.takeWhile fun p => !p.quoted && isNameChar p.char
  match w.dropWhile fun p => !p.quoted && isNameChar p.char with
  | ⟨'=', false⟩ :: value =>
    if (text name).head?.any isNameStart then some (text name, value) else none
  | _ => none

def reserved : List Text :=
  [['!'], ['\x7b'], ['\x7d'], ['c', 'a', 's', 'e'], ['d', 'o'], ['d', 'o', 'n', 'e'],
   ['e', 'l', 'i', 'f'], ['e', 'l', 's', 'e'], ['e', 's', 'a', 'c'], ['f', 'i'], ['f', 'o', 'r'],
   ['i', 'f'], ['i', 'n'], ['t', 'h', 'e', 'n'], ['u', 'n', 't', 'i', 'l'],
   ['w', 'h', 'i', 'l', 'e']]

def isReserved (w : Word) : Bool := w.all (!·.quoted) && reserved.contains (text w)

/-- An unquoted `~` where a home directory could stand. -/
def hasTilde (w : Word) : Bool := w.contains ⟨'~', false⟩

def isPattern (w : Word) : Bool :=
  w.contains ⟨'*', false⟩ || w.contains ⟨'?', false⟩ || w.contains ⟨'[', false⟩

/-- The arguments a word is, by pathname expansion and quote removal. -/
def arguments (listing : Word → List Text) (w : Word) : Option (List Text) :=
  if w.hasTilde then none
  else if w.isPattern then
    match listing w with
    | [] => some [w.text]
    | names => some names
  else some [w.text]

end Word

structure SimpleCommand where
  assignments : List (Text × Text)
  words : List Text
  deriving DecidableEq, Repr

def Token.word? : Token → Option Word
  | .word w => some w
  | .operator _ => none

/-- The simple command of a text that is only one: no operator, and nothing that
is more than its text. -/
def simpleCommand (listing : Word → List Text) (text : Text) : Option SimpleCommand := do
  let ws ← (← tokens text).mapM Token.word?
  if ws.head?.any Word.isReserved then none
  else
    let assigned := ws.takeWhile fun w => w.assignment?.isSome
    let assignments ← assigned.mapM fun w => do
      let (name, value) ← w.assignment?
      if value.hasTilde then none else some (name, value.text)
    let words ← (ws.drop assigned.length).mapM (Word.arguments listing)
    return ⟨assignments, words.flatten⟩

/-! ## Text that stands for itself -/

/-- Quotations, expansions, operators, blanks, comments and patterns. -/
def special : Text :=
  ['\\', '\'', '"', '$', '`', '&', '|', ';', '<', '>', '(', ')', '\n', ' ', '\t', '#', '~', '*',
   '?', '[']

def isOrdinary (c : Char) : Bool := !special.contains c

/-- A class without a special character. -/
theorem isOrdinary_of_class {p : Char → Bool} (hspecial : special.all (fun d => !p d) = true)
    {c : Char} (h : p c = true) : isOrdinary c = true := by
  rw [isOrdinary, Bool.not_eq_true', List.contains_eq_mem, decide_eq_false_iff_not]
  intro hc
  have hnot := List.all_eq_true.mp hspecial c hc
  rw [h] at hnot
  cases hnot

def bare (word : Text) : Word := word.map fun c => ⟨c, false⟩

theorem text_bare (word : Text) : (bare word).text = word := by
  rw [Word.text, bare, List.map_map]
  exact List.map_id _

theorem text_append (v w : Word) : Word.text (v ++ w) = v.text ++ w.text := List.map_append

theorem step_ordinary {done : List Token} {current : Option Token} {c : Char}
    (h : isOrdinary c = true) (hcurrent : ∀ op, current ≠ some (.operator op)) :
    Lexer.step ⟨done, current, .plain⟩ c = some (Lexer.push ⟨done, current, .plain⟩ false c) := by
  have hhere : Lexer.endsHereOperator ⟨done, current, .plain⟩ = false := by
    have := hcurrent ['<', '<']
    simpa [Lexer.endsHereOperator] using this
  simp only [isOrdinary, special, Bool.not_eq_true', List.contains_eq_mem, List.mem_cons,
    List.not_mem_nil, or_false, decide_eq_false_iff_not, not_or] at h
  simp [Lexer.step, Lexer.stepPlain, operators, h, hhere]

theorem step_blank (done : List Token) (current : Option Token) :
    Lexer.step ⟨done, current, .plain⟩ ' ' = some ⟨done ++ current.toList, none, .plain⟩ := by
  rfl

/-- The rest of a word. -/
theorem lex_word {done : List Token} {w : Word} {word : Text}
    (h : ∀ c ∈ word, isOrdinary c = true) :
    lex ⟨done, some (.word w), .plain⟩ word = some ⟨done, some (.word (w ++ bare word)), .plain⟩ := by
  induction word generalizing w with
  | nil => simp [lex, bare]
  | cons c word ih =>
    obtain ⟨hc, hword⟩ := List.forall_mem_cons.mp h
    have hstep : Lexer.step ⟨done, some (.word w), .plain⟩ c =
        some ⟨done, some (.word (w ++ [⟨c, false⟩])), .plain⟩ :=
      step_ordinary hc fun op => by simp
    rw [lex, List.foldlM_cons, hstep]
    apply (ih hword).trans
    simp [bare]

/-- A whole word. -/
theorem lex_newWord {done : List Token} {word : Text} (hne : word ≠ [])
    (h : ∀ c ∈ word, isOrdinary c = true) :
    lex ⟨done, none, .plain⟩ word = some ⟨done, some (.word (bare word)), .plain⟩ := by
  cases word with
  | nil => exact absurd rfl hne
  | cons c word =>
    obtain ⟨hc, hword⟩ := List.forall_mem_cons.mp h
    have hstep : Lexer.step ⟨done, none, .plain⟩ c =
        some ⟨done ++ [], some (.word [⟨c, false⟩]), .plain⟩ :=
      step_ordinary hc fun op => by simp
    rw [List.append_nil] at hstep
    rw [lex, List.foldlM_cons, hstep]
    exact lex_word hword

theorem lex_append {s : Lexer} {front back : Text} :
    lex s (front ++ back) = (lex s front).bind fun s => lex s back :=
  List.foldlM_append

/-- A nonempty word of ordinary characters. -/
def IsOrdinaryWord (word : Text) : Prop := word ≠ [] ∧ ∀ c ∈ word, isOrdinary c = true

theorem lex_blankWord {done : List Token} {word : Text} (h : IsOrdinaryWord word) :
    lex ⟨done, none, .plain⟩ (word ++ [' ']) = some ⟨done ++ [.word (bare word)], none, .plain⟩ := by
  rw [lex_append, lex_newWord h.1 h.2, Option.bind_some, lex, List.foldlM_cons, step_blank]
  rfl

theorem lex_words {done : List Token} {words : List Text} (h : ∀ w ∈ words, IsOrdinaryWord w) :
    lex ⟨done, none, .plain⟩ (words.flatMap (· ++ [' '])) =
      some ⟨done ++ words.map fun w => .word (bare w), none, .plain⟩ := by
  induction words generalizing done with
  | nil => simp [lex]
  | cons word words ih =>
    obtain ⟨hword, hwords⟩ := List.forall_mem_cons.mp h
    rw [List.flatMap_cons, lex_append, lex_blankWord hword, Option.bind_some, ih hwords]
    simp

theorem join_concat (front : List Text) (last : Text) :
    Python.join [' '] (front ++ [last]) = front.flatMap (· ++ [' ']) ++ last := by
  induction front with
  | nil => simp [Python.join]
  | cons word front ih =>
    obtain ⟨next, rest, hrest⟩ : ∃ next rest, front ++ [last] = next :: rest :=
      List.exists_cons_of_ne_nil (by simp)
    rw [Python.join] at ih
    rw [List.cons_append, hrest, Python.join, List.intercalate_cons_cons, ← hrest, ih]
    simp

/-- The last word has no blank after it. -/
theorem lex_join (done : List Token) {words : List Text} (h : ∀ w ∈ words, IsOrdinaryWord w) :
    ∃ s, lex ⟨done, none, .plain⟩ (Python.join [' '] words) = some s ∧ s.mode = .plain ∧
      s.delimit.done = done ++ words.map fun w => .word (bare w) := by
  obtain rfl | ⟨front, last, rfl⟩ := List.eq_nil_or_concat words
  · exact ⟨_, rfl, rfl, rfl⟩
  · rw [List.concat_eq_append] at h ⊢
    have hlast : IsOrdinaryWord last := h last (by simp)
    have hfront : ∀ w ∈ front, IsOrdinaryWord w := fun w hw => h w (by simp [hw])
    rw [join_concat, lex_append, lex_words hfront, Option.bind_some, lex_newWord hlast.1 hlast.2]
    refine ⟨_, rfl, rfl, ?_⟩
    simp [Lexer.delimit]

/-- Words, each followed by a blank, and joined ones after them. -/
theorem tokens_words {front back : List Text} (hfront : ∀ w ∈ front, IsOrdinaryWord w)
    (hback : ∀ w ∈ back, IsOrdinaryWord w) :
    tokens (front.flatMap (· ++ [' ']) ++ Python.join [' '] back) =
      some ((front ++ back).map fun w => .word (bare w)) := by
  obtain ⟨s, hs, hmode, hdone⟩ := lex_join (front.map fun w => .word (bare w)) hback
  have hall : lex ⟨[], none, .plain⟩ (front.flatMap (· ++ [' ']) ++ Python.join [' '] back) =
      some s := by
    rw [lex_append, lex_words hfront]
    exact hs
  simp only [tokens, hall, bind, Option.bind_some, hmode, true_or, if_true, hdone, List.map_append]

/-- A word without unquoted patterns or home directories is one argument. -/
theorem arguments_plain (listing : Word → List Text) {w : Word}
    (h : ∀ p ∈ w, p.quoted = false → isOrdinary p.char = true) :
    w.arguments listing = some [w.text] := by
  have hnot : ∀ c, isOrdinary c = false → w.contains ⟨c, false⟩ = false := by
    intro c hc
    rw [List.contains_eq_mem, decide_eq_false_iff_not]
    intro hmem
    rw [h _ hmem rfl] at hc
    cases hc
  have htilde : w.hasTilde = false := hnot '~' (by decide)
  have hpattern : w.isPattern = false := by
    simp only [Word.isPattern, hnot '*' (by decide), hnot '?' (by decide), hnot '[' (by decide),
      Bool.or_self]
  simp [Word.arguments, htilde, hpattern]

theorem bare_ordinary {word : Text} (h : ∀ c ∈ word, isOrdinary c = true) :
    ∀ p ∈ bare word, p.quoted = false → isOrdinary p.char = true := by
  intro p hp _
  obtain ⟨c, hc, rfl⟩ := List.mem_map.mp hp
  exact h c hc

theorem mapM_eq_map {α β : Type} {f : α → Option β} {g : α → β} {l : List α}
    (h : ∀ a ∈ l, f a = some (g a)) : l.mapM f = some (l.map g) := by
  induction l with
  | nil => rfl
  | cons a l ih =>
    obtain ⟨ha, hl⟩ := List.forall_mem_cons.mp h
    rw [List.mapM_cons, ha, ih hl]
    rfl

/-- Words that stand for themselves, after some assignments, are one simple command. -/
theorem simpleCommand_of_words (listing : Word → List Text) {text : Text}
    (assigned : List (Text × Text)) {first : Word} {words : List Word}
    (htokens : tokens text = some
      (((assigned.map fun a => bare (a.1 ++ '=' :: a.2)) ++ first :: words).map Token.word))
    (hassigned : ∀ a ∈ assigned, (bare (a.1 ++ '=' :: a.2)).assignment? = some (a.1, bare a.2) ∧
      (bare a.2).hasTilde = false ∧ (bare (a.1 ++ '=' :: a.2)).isReserved = false)
    (hfirst : first.assignment? = none ∧ first.isReserved = false)
    (hwords : ∀ w ∈ first :: words, w.arguments listing = some [w.text]) :
    simpleCommand listing text = some ⟨assigned, (first :: words).map Word.text⟩ := by
  have hpieces : (((assigned.map fun a => bare (a.1 ++ '=' :: a.2)) ++ first :: words).map
      Token.word).mapM Token.word? =
      some ((assigned.map fun a => bare (a.1 ++ '=' :: a.2)) ++ first :: words) := by
    rw [List.mapM_map]
    apply (mapM_eq_map (g := id) fun w _ => rfl).trans
    rw [List.map_id]
  have hhead : ((assigned.map fun a => bare (a.1 ++ '=' :: a.2)) ++ first ::
      words).head?.any Word.isReserved = false := by
    cases assigned with
    | nil => exact hfirst.2
    | cons a assigned => exact (hassigned a List.mem_cons_self).2.2
  have htake : ((assigned.map fun a => bare (a.1 ++ '=' :: a.2)) ++ first ::
      words).takeWhile (fun w => w.assignment?.isSome) =
      assigned.map fun a => bare (a.1 ++ '=' :: a.2) := by
    rw [List.takeWhile_append_of_pos, List.takeWhile_cons_of_neg, List.append_nil]
    · simp [hfirst.1]
    · intro w hw
      obtain ⟨a, ha, rfl⟩ := List.mem_map.mp hw
      rw [(hassigned a ha).1]
      rfl
  have hassignments : (assigned.map fun a => bare (a.1 ++ '=' :: a.2)).mapM (fun w => do
      let (name, value) ← w.assignment?
      if value.hasTilde then none else some (name, value.text)) = some assigned := by
    rw [List.mapM_map, mapM_eq_map (g := id), List.map_id]
    intro a ha
    obtain ⟨hvalue, htilde, _⟩ := hassigned a ha
    simp [hvalue, htilde, text_bare]
  have hargs := mapM_eq_map hwords
  have hflat : ((first :: words).map fun w => [w.text]).flatten = (first :: words).map Word.text := by
    rw [← List.flatMap_def]
    exact List.flatMap_pure_eq_map _ _
  simp only [simpleCommand, htokens, bind, Option.bind_some]
  simp only [bind] at hassignments
  rw [hpieces, Option.bind_some, hhead, htake, hassignments, List.drop_left, hargs,
    if_neg Bool.false_ne_true, Option.bind_some, Option.bind_some, hflat]
  rfl

/-- Ordinary words after some assignments are the words of one simple command. -/
theorem simpleCommand_of_tokens (listing : Word → List Text) {text : Text}
    {assigned : List (Text × Text)} {first : Text} {words : List Text}
    (htokens : tokens text =
      some (((assigned.map fun a => a.1 ++ '=' :: a.2) ++ first :: words).map
        fun w => .word (bare w)))
    (hassigned : ∀ a ∈ assigned, (bare (a.1 ++ '=' :: a.2)).assignment? = some (a.1, bare a.2) ∧
      (bare a.2).hasTilde = false ∧ (bare (a.1 ++ '=' :: a.2)).isReserved = false)
    (hfirst : (bare first).assignment? = none ∧ (bare first).isReserved = false)
    (hwords : ∀ w ∈ first :: words, ∀ c ∈ w, isOrdinary c = true) :
    simpleCommand listing text = some ⟨assigned, first :: words⟩ := by
  have htext : (bare first :: words.map bare).map Word.text = first :: words := by
    rw [← List.map_cons, List.map_map]
    conv => rhs; rw [← List.map_id (first :: words)]
    exact List.map_congr_left fun w _ => text_bare w
  rw [← htext]
  apply simpleCommand_of_words listing assigned _ hassigned hfirst
  · intro w hw
    rw [← List.map_cons] at hw
    obtain ⟨word, hword, rfl⟩ := List.mem_map.mp hw
    exact arguments_plain listing (bare_ordinary (hwords word hword))
  · rw [htokens]
    simp only [List.map_append, List.map_cons, List.map_map]
    rfl

/-! ## Text in quotes -/

def quoted (word : Text) : Word := word.map fun c => ⟨c, true⟩

theorem text_quoted (word : Text) : (quoted word).text = word := by
  rw [Word.text, quoted, List.map_map]
  exact List.map_id _

/-- A text between single quotes, its own ones between double quotes. -/
def requoted (word : Text) : Text :=
  word.flatMap fun c => if c = '\'' then ['\'', '"', '\'', '"', '\''] else [c]

theorem lex_requoted {done : List Token} {w : Word} {word : Text} :
    lex ⟨done, some (.word w), .single⟩ (requoted word) =
      some ⟨done, some (.word (w ++ quoted word)), .single⟩ := by
  induction word generalizing w with
  | nil => simp [lex, requoted, quoted]
  | cons c word ih =>
    have hfirst : lex ⟨done, some (.word w), .single⟩
        (if c = '\'' then ['\'', '"', '\'', '"', '\''] else [c]) =
        some ⟨done, some (.word (w ++ [⟨c, true⟩])), .single⟩ := by
      split
      · rename_i hc
        subst hc
        rfl
      · rename_i hc
        simp [lex, Lexer.step, hc, Lexer.push, Lexer.openWord]
    rw [requoted, List.flatMap_cons, lex_append, hfirst, Option.bind_some]
    apply ih.trans
    simp [quoted]

example : simpleCommand (fun _ => []) "x='1 2' a 'b c'\\ d #;".toList =
    some ⟨[("x".toList, "1 2".toList)], ["a".toList, "b c d".toList]⟩ := by decide +kernel

end LinuxBuild.Sh
