import LinuxBuild.Buffer
import LinuxBuild.Shell

/-!
# `split_args` in its buffer

The memory is the line with its NUL and the slots of `argv`, nothing else, so a
run without a fault stays inside both. `splitLoop_eq` takes the loop on cells to
the one on lists.
-/

namespace LinuxBuild

open Buffer

/-- The maximal runs of bytes that are no blanks. -/
def wordRuns (line : Bytes) : List Bytes := (line.splitOnP isSpace).filter (· ≠ [])

/-! ## On cells -/

/-- `while (is_space(*cursor)) *cursor++ = '\0'`. The fuel is the size of the
memory, and the cursor is outside of it before that runs out. -/
def blankSpaces : Nat → Bytes → Nat → Option (Bytes × Nat)
  | 0, _, _ => none
  | fuel + 1, memory, cursor => do
    let c ← load memory cursor
    if isSpace c then blankSpaces fuel (← store memory cursor 0) (cursor + 1)
    else return (memory, cursor)

/-- `while (*cursor != '\0' && !is_space(*cursor)) cursor++`. -/
def skipWord : Nat → Bytes → Nat → Option Nat
  | 0, _, _ => none
  | fuel + 1, memory, cursor => do
    let c ← load memory cursor
    if c ≠ 0 && !isSpace c then skipWord fuel memory (cursor + 1) else return cursor

/-- Memory, cursor, slots of `argv` and `argc`. A `NULL` slot is `none`. -/
structure Split where
  memory : Bytes
  cursor : Nat
  argv : List (Option Nat)
  argc : Nat
  deriving DecidableEq

/-- The outer loop of `split_args`, which fills a slot a round. -/
def splitLoop (capacity : Nat) : Nat → Split → Option Split
  | 0, _ => none
  | fuel + 1, s => do
    if (← load s.memory s.cursor) ≠ 0 && s.argc + 1 < capacity then
      let (memory, cursor) ← blankSpaces s.memory.length s.memory s.cursor
      if (← load memory cursor) = 0 then return ⟨memory, cursor, s.argv, s.argc⟩
      let argv ← store s.argv s.argc (some cursor)
      splitLoop capacity fuel ⟨memory, ← skipWord memory.length memory cursor, argv, s.argc + 1⟩
    else return s

/-- `split_args` on a line that starts the memory. -/
def splitArgsIn (memory : Bytes) (argv : List (Option Nat)) (capacity : Nat) : Option Split := do
  let s ← splitLoop capacity capacity ⟨memory, 0, argv, 0⟩
  let memory ← if (← load s.memory s.cursor) ≠ 0 then store s.memory s.cursor 0 else pure s.memory
  return ⟨memory, s.cursor, ← store s.argv s.argc none, s.argc⟩

example : (splitArgsIn (ascii " ls  /x " ++ [0]) [none, none, some 7] 3).map (·.argv) =
    some [some 1, some 5, none] := by decide

/-! ## The loops on lists -/

theorem isSpace_zero : isSpace 0 = false := by decide

theorem blankSpaces_eq (done : Bytes) {rest after : Bytes} {fuel : Nat}
    (hfuel : rest.length < fuel) :
    blankSpaces fuel (done ++ (rest ++ 0 :: after)) done.length =
      some (done ++ (rest.takeWhile isSpace).map (fun _ => 0) ++ (rest.dropWhile isSpace ++ 0 :: after),
        done.length + (rest.takeWhile isSpace).length) := by
  induction rest generalizing done fuel with
  | nil =>
    obtain ⟨fuel, rfl⟩ : ∃ n, fuel = n + 1 := ⟨fuel - 1, by omega⟩
    simp [blankSpaces, load_at, isSpace_zero]
  | cons c rest ih =>
    obtain ⟨fuel, rfl⟩ : ∃ n, fuel = n + 1 := ⟨fuel - 1, by omega⟩
    simp only [List.length_cons] at hfuel
    rw [blankSpaces, List.cons_append, load_at done c _ rfl, store_at done c _ _ rfl]
    by_cases hc : isSpace c = true
    · have := @ih (done ++ [0]) fuel (by omega)
      simp only [List.append_assoc, List.singleton_append, List.length_append, List.length_cons,
        List.length_nil] at this
      simp [hc, this]
      omega
    · simp [hc]

theorem skipWord_eq (done : Bytes) {rest after : Bytes} {fuel : Nat} (h0 : 0 ∉ rest)
    (hfuel : rest.length < fuel) :
    skipWord fuel (done ++ (rest ++ 0 :: after)) done.length =
      some (done.length + (rest.takeWhile (!isSpace ·)).length) := by
  induction rest generalizing done fuel with
  | nil =>
    obtain ⟨fuel, rfl⟩ : ∃ n, fuel = n + 1 := ⟨fuel - 1, by omega⟩
    simp [skipWord, load_at]
  | cons c rest ih =>
    obtain ⟨fuel, rfl⟩ : ∃ n, fuel = n + 1 := ⟨fuel - 1, by omega⟩
    simp only [List.length_cons] at hfuel
    simp only [List.mem_cons, not_or] at h0
    rw [skipWord, List.cons_append, load_at done c _ rfl]
    by_cases hc : isSpace c = true
    · simp [hc]
    · have := @ih (done ++ [c]) fuel h0.2 (by omega)
      simp only [List.append_assoc, List.singleton_append, List.length_append, List.length_cons,
        List.length_nil] at this
      simp [hc, Ne.symm h0.1, this]
      omega

/-- Memory, cursor and slots with the line and the slots in two parts each. -/
def Split.at (done rest : Bytes) (filled free : List (Option Nat)) : Split :=
  ⟨done ++ (rest ++ [0]), done.length, filled ++ free, filled.length⟩

/-- A round that stops at the end of the line. -/
theorem splitLoop_end {capacity fuel : Nat} (done : Bytes) {rest : Bytes}
    (filled free : List (Option Nat)) (h0 : 0 ∉ rest) (hcap : filled.length + 1 < capacity)
    (hend : rest.dropWhile isSpace = []) :
    splitLoop capacity (fuel + 1) (.at done rest filled free) =
      some (.at (done ++ (rest.takeWhile isSpace).map fun _ => 0) [] filled free) := by
  cases rest with
  | nil => simp [splitLoop, Split.at, load_at]
  | cons c rest =>
    have hc : c ≠ 0 := fun h => h0 (h ▸ List.mem_cons_self)
    have hblank := @blankSpaces_eq done (c :: rest) [] (done ++ (c :: rest ++ [0])).length
      (by simp; omega)
    rw [hend] at hblank
    have hload : load (done ++ (c :: rest ++ [0])) done.length = some c := load_at done c _ rfl
    have hnul : load (done ++ ((c :: rest).takeWhile isSpace).map (fun _ => 0) ++ ([] ++ [0]))
        (done.length + ((c :: rest).takeWhile isSpace).length) = some 0 :=
      load_at _ _ _ (by simp)
    simp only [splitLoop, Split.at, hload, hblank, hnul, bind, Option.bind_some, hc, hcap, ne_eq,
      not_false_eq_true, decide_true, Bool.and_self, if_true]
    simp

/-- A round that finds a word. -/
theorem splitLoop_word {capacity fuel : Nat} (done : Bytes) {rest text : Bytes} {d : UInt8}
    (filled : List (Option Nat)) (slot : Option Nat) (free : List (Option Nat)) (h0 : 0 ∉ rest)
    (hcap : filled.length + 1 < capacity) (hword : rest.dropWhile isSpace = d :: text) :
    splitLoop capacity (fuel + 1) (.at done rest filled (slot :: free)) =
      let start := done ++ (rest.takeWhile isSpace).map fun _ => 0
      splitLoop capacity fuel (.at (start ++ (d :: text).takeWhile (!isSpace ·))
        ((d :: text).dropWhile (!isSpace ·)) (filled ++ [some start.length]) free) := by
  have hsub : ∀ x ∈ d :: text, x ≠ 0 := by
    rintro x hx rfl
    exact h0 ((List.dropWhile_suffix isSpace).subset (hword ▸ hx))
  obtain ⟨c, rest, rfl⟩ := List.exists_cons_of_ne_nil (l := rest) (by rintro rfl; cases hword)
  have hc : c ≠ 0 := fun h => h0 (h ▸ List.mem_cons_self)
  have hblank := @blankSpaces_eq done (c :: rest) [] (done ++ (c :: rest ++ [0])).length
    (by simp; omega)
  rw [hword] at hblank
  have hload : load (done ++ (c :: rest ++ [0])) done.length = some c := load_at done c _ rfl
  generalize hz : ((c :: rest).takeWhile isSpace).map (fun _ => (0 : UInt8)) = zeros at hblank
  rw [show ((c :: rest).takeWhile isSpace).length = zeros.length by rw [← hz]; simp] at hblank
  have hfirst : load (done ++ zeros ++ (d :: text ++ [0])) (done.length + zeros.length) = some d :=
    load_at _ _ _ (by simp)
  have hslot : store (filled ++ slot :: free) filled.length (some (done.length + zeros.length)) =
      some (filled ++ some (done.length + zeros.length) :: free) := store_at _ _ _ _ rfl
  have hskip : skipWord (done ++ zeros ++ (d :: text ++ [0])).length
      (done ++ zeros ++ (d :: text ++ [0])) (done.length + zeros.length) =
        some (done.length + zeros.length + ((d :: text).takeWhile (!isSpace ·)).length) := by
    rw [← List.length_append]
    exact skipWord_eq (done ++ zeros) (fun h => hsub 0 h rfl) (by simp; omega)
  have hsplit := List.takeWhile_append_dropWhile (p := (!isSpace ·)) (l := d :: text)
  simp only [splitLoop, Split.at, hload, hblank, hfirst, hslot, hskip, bind, Option.bind_some, hc,
    hcap, hsub d List.mem_cons_self, ne_eq, not_false_eq_true, decide_true, Bool.and_self, if_true,
    if_false]
  generalize (d :: text).takeWhile (!isSpace ·) = word at hsplit ⊢
  generalize (d :: text).dropWhile (!isSpace ·) = more at hsplit ⊢
  rw [← hsplit]
  simp [Nat.add_assoc]

/-- The loop fills the slots in turn, as the one on lists lists the offsets. -/
theorem splitLoop_eq {capacity room fuel : Nat} (done : Bytes) {rest : Bytes}
    (filled : List (Option Nat)) {free : List (Option Nat)} (h0 : 0 ∉ rest)
    (hroom : filled.length + 1 + room = capacity) (hfree : room < free.length)
    (hfuel : room < fuel) :
    splitLoop capacity fuel (.at done rest filled free) =
      some (.at (splitArgsFrom room done rest).2.1 (splitArgsFrom room done rest).2.2
        (filled ++ (splitArgsFrom room done rest).1.map some)
        (free.drop (splitArgsFrom room done rest).1.length)) ∧
      (splitArgsFrom room done rest).1.length ≤ room := by
  induction room generalizing fuel done rest filled free with
  | zero =>
    obtain ⟨fuel, rfl⟩ : ∃ n, fuel = n + 1 := ⟨fuel - 1, by omega⟩
    have hfull : ¬ filled.length + 1 < capacity := by omega
    cases rest with
    | nil => simp [splitLoop, Split.at, splitArgsFrom, load_at]
    | cons c rest => simp [splitLoop, Split.at, splitArgsFrom, load_at, hfull]
  | succ room ih =>
    obtain ⟨fuel, rfl⟩ : ∃ n, fuel = n + 1 := ⟨fuel - 1, by omega⟩
    have hopen : filled.length + 1 < capacity := by omega
    simp only [splitArgsFrom]
    cases hd : rest.dropWhile isSpace with
    | nil =>
      rw [splitLoop_end done filled free h0 hopen hd]
      simp
    | cons d text =>
      obtain ⟨slot, free, rfl⟩ := List.exists_cons_of_length_pos (l := free) (by omega)
      rw [splitLoop_word done filled slot free h0 hopen hd]
      generalize done ++ (rest.takeWhile isSpace).map (fun _ => 0) = start
      have hmore : 0 ∉ (d :: text).dropWhile (!isSpace ·) := fun h =>
        h0 ((List.dropWhile_suffix isSpace).subset (hd ▸ (List.dropWhile_suffix _).subset h))
      obtain ⟨hloop, hlen⟩ := @ih fuel (start ++ (d :: text).takeWhile (!isSpace ·))
        ((d :: text).dropWhile (!isSpace ·)) (filled ++ [some start.length]) free hmore
        (by simp; omega) (by simpa using hfree) (by omega)
      refine ⟨?_, by simpa using hlen⟩
      simp only [hloop]
      simp

/-! ## The words -/

theorem wordRuns_nil : wordRuns [] = [] := by
  simp [wordRuns, List.splitOnP_nil]

/-- Blanks in front do not count. -/
theorem wordRuns_blank {c : UInt8} (hc : isSpace c = true) (line : Bytes) :
    wordRuns (c :: line) = wordRuns line := by
  have := List.splitOnP_append_cons_of_forall_mem (p := isSpace) (by simp : ∀ x ∈ [], isSpace x = false)
    c hc line
  rw [List.nil_append] at this
  simp [wordRuns, this]

theorem wordRuns_dropWhile (line : Bytes) : wordRuns (line.dropWhile isSpace) = wordRuns line := by
  induction line with
  | nil => rfl
  | cons c line ih =>
    rw [List.dropWhile_cons]
    split
    · rw [wordRuns_blank (by assumption)]
      exact ih
    · rfl

theorem wordRuns_word {c : UInt8} (hc : isSpace c = false) (line : Bytes) :
    wordRuns (c :: line) = (c :: line).takeWhile (!isSpace ·) ::
      wordRuns ((c :: line).dropWhile (!isSpace ·)) := by
  have hsplit := List.takeWhile_append_dropWhile (p := (!isSpace ·)) (l := c :: line)
  have hword : ∀ x ∈ (c :: line).takeWhile (!isSpace ·), isSpace x = false := fun x hx => by
    simpa using List.all_eq_true.mp List.all_takeWhile x hx
  have hne : (c :: line).takeWhile (!isSpace ·) ≠ [] := by simp [hc]
  have hstop := List.head?_dropWhile_not (!isSpace ·) (c :: line)
  generalize (c :: line).takeWhile (!isSpace ·) = word at hsplit hword hne ⊢
  generalize (c :: line).dropWhile (!isSpace ·) = more at hsplit hstop ⊢
  rw [← hsplit]
  cases more with
  | nil => simp [wordRuns, List.splitOnP_nil, List.splitOnP_eq_singleton hword, hne]
  | cons d more =>
    have hd : isSpace d = true := by simpa using hstop
    rw [wordRuns_blank hd, wordRuns, List.splitOnP_append_cons_of_forall_mem hword d hd]
    simp [wordRuns, hne]

/-- `words` finds the maximal runs of bytes that are no blanks. -/
theorem words_eq_wordRuns (line : Bytes) : words line = wordRuns line := by
  induction hn : line.length using Nat.strongRecOn generalizing line with
  | ind n ih =>
    rw [← wordRuns_dropWhile]
    have hle := (List.dropWhile_suffix (l := line) isSpace).length_le
    have hhead := List.head?_dropWhile_not isSpace line
    cases hd : line.dropWhile isSpace with
    | nil => rw [words_nil hd, wordRuns_nil]
    | cons c text =>
      rw [hd] at hle hhead
      have hc : isSpace c = false := by simpa using hhead
      have hrest := (List.dropWhile_suffix (l := text) (!isSpace ·)).length_le
      have hmore : (c :: text).dropWhile (!isSpace ·) = text.dropWhile (!isSpace ·) := by
        simp [hc]
      rw [words_cons hd, wordRuns_word hc, hmore,
        ih _ (by simp only [List.length_cons] at hle; omega) _ rfl]

/-! ## The whole of `split_args` -/

theorem cstr_concat_zero (text : Bytes) : cstr (text ++ [0]) = cstr text := by
  induction text with
  | nil => rfl
  | cons c text ih =>
    simp only [cstr, List.cons_append, List.takeWhile_cons] at ih ⊢
    rw [ih]

/-- The NUL behind a text ends no string in it sooner. -/
theorem cstr_drop_concat (text : Bytes) (n : Nat) :
    cstr ((text ++ [0]).drop n) = cstr (text.drop n) := by
  rw [List.drop_append]
  cases hn : n - text.length with
  | zero => exact cstr_concat_zero _
  | succ m => rw [List.drop_succ_cons, List.drop_nil, List.append_nil]

theorem splitArgsFrom_length (room : Nat) (done rest : Bytes) :
    (splitArgsFrom room done rest).2.1.length + (splitArgsFrom room done rest).2.2.length =
      done.length + rest.length := by
  induction room generalizing done rest with
  | zero => rfl
  | succ room ih =>
    have hspace := congrArg List.length
      (List.takeWhile_append_dropWhile (p := isSpace) (l := rest))
    rw [List.length_append] at hspace
    simp only [splitArgsFrom]
    cases hd : rest.dropWhile isSpace with
    | nil =>
      rw [hd] at hspace
      simp at hspace ⊢
      omega
    | cons d text =>
      have hword := congrArg List.length
        (List.takeWhile_append_dropWhile (p := (!isSpace ·)) (l := d :: text))
      rw [hd] at hspace
      simp only [ih, List.length_append, List.length_map] at hword ⊢
      omega

/-- The run of `split_args` on lists: where the loop stops, the byte at the
cursor becomes a NUL, and the slot behind the last argument `NULL`. -/
theorem splitArgsIn_eq {line : Bytes} {argv : List (Option Nat)} {capacity : Nat} (h0 : 0 ∉ line)
    (hcap : 1 ≤ capacity) (hargv : argv.length = capacity) :
    ∃ cursor free, splitArgsIn (line ++ [0]) argv capacity = some
      ⟨closeArgs (splitArgsFrom (capacity - 1) [] line).2.1 (splitArgsFrom (capacity - 1) [] line).2.2 ++
        [0], cursor, (splitArgsFrom (capacity - 1) [] line).1.map some ++ none :: free,
        (splitArgsFrom (capacity - 1) [] line).1.length⟩ := by
  obtain ⟨hloop, hlen⟩ := @splitLoop_eq capacity (capacity - 1) capacity [] line [] argv h0
    (by simp only [List.length_nil]; omega) (by omega : capacity - 1 < argv.length) (by omega)
  generalize splitArgsFrom (capacity - 1) [] line = r at hloop hlen ⊢
  obtain ⟨offsets, done, rest⟩ := r
  simp only [Split.at, List.nil_append, List.length_nil] at hloop hlen ⊢
  obtain ⟨slot, free, hfree⟩ := List.exists_cons_of_length_pos (l := argv.drop offsets.length)
    (by rw [List.length_drop]; omega)
  have hslot : store (offsets.map some ++ slot :: free) offsets.length none =
      some (offsets.map some ++ none :: free) := store_at _ _ _ _ (by simp)
  refine ⟨done.length, free, ?_⟩
  simp only [splitArgsIn, hloop, hfree, bind, Option.bind_some, List.length_map, hslot]
  cases rest with
  | nil => simp [load_at, closeArgs]
  | cons c rest =>
    by_cases hc : c = 0
    · simp [load_at, closeArgs, hc]
    · simp [load_at, store_at, closeArgs, hc]

/-- `split_args` splits the line in place: it stays inside the line and `argv`,
and the strings it leaves are the first words. -/
theorem split_args_exact {line : Bytes} {argv : List (Option Nat)} {capacity : Nat} (h0 : 0 ∉ line)
    (hcap : 1 ≤ capacity) (hargv : argv.length = capacity) :
    ∃ s, splitArgsIn (line ++ [0]) argv capacity = some s ∧
      s.argc = min (capacity - 1) (wordRuns line).length ∧
      (∀ i < s.argc, ∃ start, s.argv[i]? = some (some start) ∧
        (wordRuns line)[i]? = some (cstr (s.memory.drop start))) ∧
      s.argv[s.argc]? = some none ∧ s.memory.length = line.length + 1 := by
  obtain ⟨cursor, free, hrun⟩ := splitArgsIn_eq h0 hcap hargv
  obtain ⟨_, _, _, hargs⟩ := splitArgsFrom_spec (capacity - 1) [] h0
  have hlen := splitArgsFrom_length (capacity - 1) [] line
  refine ⟨_, hrun, ?_⟩
  generalize splitArgsFrom (capacity - 1) [] line = r at hargs hlen ⊢
  obtain ⟨offsets, done, rest⟩ := r
  rw [words_eq_wordRuns] at hargs
  simp only at hargs hlen ⊢
  have hcount := congrArg List.length hargs
  rw [List.length_map, List.length_take] at hcount
  refine ⟨hcount, fun i hi => ?_, by simp, ?_⟩
  · refine ⟨offsets[i], by simp [List.getElem?_append_left, hi], ?_⟩
    have hword := congrArg (·[i]?) hargs
    simp only [List.getElem?_map, List.getElem?_eq_getElem hi, Option.map_some] at hword
    rw [List.getElem?_take_of_lt (by omega)] at hword
    rw [← hword, cstr_drop_concat]
  · cases rest with
    | nil => simpa [closeArgs] using hlen
    | cons c rest =>
      simp [closeArgs] at hlen ⊢
      omega

/-- Two of three words fit. -/
theorem split_args_exact_cut : ∃ s,
    splitArgsIn (ascii " run  /x 7" ++ [0]) [none, none, none] 3 = some s ∧ s.argc = 2 := by
  obtain ⟨s, hrun, hargc, _⟩ := @split_args_exact (ascii " run  /x 7") [none, none, none] 3
    (by decide) (by decide) rfl
  have hwords : wordRuns (ascii " run  /x 7") = [ascii "run", ascii "/x", ascii "7"] := by
    decide +kernel
  rw [hwords] at hargc
  exact ⟨s, hrun, hargc⟩

end LinuxBuild
