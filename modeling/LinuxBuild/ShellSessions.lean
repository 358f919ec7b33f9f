import Mathlib.Data.List.TakeWhile
import LinuxBuild.Authority
import LinuxBuild.Shell

/-!
# Sessions and the shell loop

`shellLoop` says which argument vectors a console stream comes to. The program
over system calls dispatches the same, whatever the commands do in between.
-/

namespace LinuxBuild.Payload

open Interaction

/-! ## Lines of a longer stream -/

theorem readLineFrom_append {capacity : Nat} {line a text rest : Bytes} (b : Bytes)
    (h : readLineFrom capacity line a = some (text, rest)) :
    readLineFrom capacity line (a ++ b) = some (text, rest ++ b) := by
  induction a generalizing line with
  | nil =>
    rw [readLineFrom] at h
    split at h
    · cases h
    · rename_i hfull
      cases h
      cases b with
      | nil => rw [List.nil_append, readLineFrom, if_neg hfull]
      | cons c b => rw [List.nil_append, readLineFrom, if_neg hfull]
  | cons c a ih =>
    rw [readLineFrom] at h
    rw [List.cons_append, readLineFrom]
    by_cases hroom : line.length + 1 < capacity
    · rw [if_pos hroom] at h ⊢
      by_cases hcr : c = cr
      · rw [if_pos hcr] at h ⊢
        exact ih h
      · rw [if_neg hcr] at h ⊢
        by_cases hlf : c = lf
        · rw [if_pos hlf] at h ⊢
          cases h
          rfl
        · rw [if_neg hlf] at h ⊢
          exact ih h
    · rw [if_neg hroom] at h ⊢
      cases h
      rfl

theorem mem_of_readLineFrom {capacity : Nat} {line a text rest : Bytes}
    (h : readLineFrom capacity line a = some (text, rest)) : ∀ c ∈ text, c ∈ line ∨ c ∈ a := by
  induction a generalizing line with
  | nil =>
    rw [readLineFrom] at h
    split at h
    · cases h
    · cases h
      exact fun c hc => .inl hc
  | cons d a ih =>
    rw [readLineFrom] at h
    intro c hc
    split at h
    · split at h
      · obtain hline | ha := ih h c hc
        · exact .inl hline
        · exact .inr (List.mem_cons_of_mem _ ha)
      · split at h
        · cases h
          exact .inl hc
        · obtain hline | ha := ih h c hc
          · obtain hline | hone := List.mem_append.mp hline
            · exact .inl hline
            · exact .inr (List.mem_singleton.mp hone ▸ List.mem_cons_self)
          · exact .inr (List.mem_cons_of_mem _ ha)
    · cases h
      exact .inl hc

theorem cstr_eq_self {text : Bytes} (h : 0 ∉ text) : cstr text = text := by
  rw [cstr, List.takeWhile_eq_self_iff]
  intro c hc
  rw [decide_eq_true_eq]
  rintro rfl
  exact h hc

theorem shellLoop_keys {keys line : Bytes} (more : Bytes)
    (h : LinuxBuild.readLine lineCapacity keys = some (line, [])) :
    shellLoop (keys ++ more) = argvOf line argvCapacity :: shellLoop more := by
  have hread : LinuxBuild.readLine lineCapacity (keys ++ more) = some (line, more) :=
    readLineFrom_append more h
  exact shellLoop_some hread

/-- A line that was not read: a read failed before the bytes came to a line. -/
theorem readLine_failed {capacity : Nat} {t : Trace Call Reply}
    (h : Runs (readLine capacity) t none) (hl : Legal t) :
    LinuxBuild.readLine capacity (typed t) = none ∧
      ∃ before answer, t = before ++ [(.read 0 1, answer)] ∧ answer.value ≤ 0 := by
  -- by induction on the bytes, for the line read so far
  have hkeys : ∀ x t a, Runs (.loop (readTurn capacity) x) t a → Legal t → a = none →
      readLineFrom capacity x (typed t) = none ∧
        ∃ before answer, t = before ++ [(.read 0 1, answer)] ∧ answer.value ≤ 0 := by
    intro x t a h
    refine loop_induction (motive := fun x t a => Legal t → a = none →
      readLineFrom capacity x (typed t) = none ∧
        ∃ before answer, t = before ++ [(.read 0 1, answer)] ∧ answer.value ≤ 0) ?_ ?_ h
    · rintro x t _ hturn hl rfl
      obtain ⟨_, _, hr⟩ | ⟨hroom, ⟨_, hnone, answer, rfl, hfailed⟩ | ⟨c, _, hr⟩⟩ :=
        readTurn_cases hturn hl
      · cases hr
      · rw [hnone, readLineFrom, if_pos hroom]
        exact ⟨rfl, [], answer, rfl, hfailed⟩
      · split at hr
        · cases hr
        · split at hr <;> cases hr
    · rintro x y t u a hturn _ ih hl rfl
      obtain ⟨hlt, hlu⟩ := legal_append.mp hl
      obtain ⟨hline, before, answer, rfl, hfailed⟩ := ih hlu rfl
      refine ⟨?_, t ++ before, answer, (List.append_assoc ..).symm, hfailed⟩
      obtain ⟨_, _, hr⟩ | ⟨hroom, ⟨hr, _⟩ | ⟨c, hone, hr⟩⟩ := readTurn_cases hturn hlt
      · cases hr
      · cases hr
      · rw [typed_append, hone, List.cons_append, List.nil_append, readLineFrom, if_pos hroom]
        split at hr
        · rename_i hcr
          cases hr
          rw [if_pos hcr]
          exact hline
        · rename_i hcr
          split at hr
          · cases hr
          · rename_i hlf
            cases hr
            rw [if_neg hcr, if_neg hlf]
            exact hline
  exact hkeys [] t _ h hl rfl

/-! ## Turns -/

/-- A turn of the loop: up to the line that was read, and from there on. Without a
line the read has failed. -/
structure Turn where
  reading : Trace Call Reply
  command : Trace Call Reply
  dispatched : Option (List Bytes)

namespace Turn

def trace (turn : Turn) : Trace Call Reply := turn.reading ++ turn.command

def keys (turn : Turn) : Bytes := typed turn.reading

/-- The prompt is written, and then bytes are read from the console. -/
def Prompts (turn : Turn) : Prop :=
  ∀ e ∈ turn.reading, (∃ bytes, e.1 = .write 1 bytes) ∨ e.1 = .read 0 1

/-- The command that runs is that of the line that was read. There is none only where
the console did not give a line and its last read failed. -/
def Ran (w : Word) (turn : Turn) : Prop :=
  turn.Prompts ∧
  match turn.dispatched with
  | some argv => Runs (runCommand w argv) turn.command () ∧
      ∃ line, LinuxBuild.readLine lineCapacity turn.keys = some (line, []) ∧
        argv = argvOf (cstr line) argvCapacity
  | none => Runs (putsRaw (ascii "\n")) turn.command () ∧
      LinuxBuild.readLine lineCapacity turn.keys = none ∧
        ∃ before answer, turn.reading = before ++ [(.read 0 1, answer)] ∧ answer.value ≤ 0

end Turn

theorem calls_readLine {P : Call → Prop} (h : P (.read 0 1)) (capacity : Nat) :
    CallsOnly P (readLine capacity) := by
  refine .loop fun line => ?_
  rw [readTurn]
  refine .ite (.bind (.ask h) fun r => .ite .ret (.ite .ret ?_)) .ret
  exact .ite .ret .ret

theorem runs_shellTurn {w : Word} {t : Trace Call Reply} (h : Runs (shellTurn w) t ())
    (hl : Legal t) : ∃ turn : Turn, turn.trace = t ∧ turn.Ran w := by
  obtain ⟨prompt, rest, _, rfl, hprompt, h⟩ := runs_bind.mp h
  obtain ⟨reading, command, read, rfl, hread, hcommand⟩ := runs_bind.mp h
  have hkeys : typed (prompt ++ reading) = typed reading := by
    rw [typed_append, typed_prompt hprompt, List.nil_append]
  obtain ⟨_, hl⟩ := legal_append.mp hl
  obtain ⟨hl, _⟩ := legal_append.mp hl
  refine ⟨⟨prompt ++ reading, command, read.map fun line => argvOf (cstr line) argvCapacity⟩,
    List.append_assoc _ _ _, ?_, ?_⟩
  · intro e he
    obtain he | he := List.mem_append.mp he
    · exact .inl ((calls_putsRaw (P := fun c => ∃ bytes, c = .write 1 bytes)
        (fun bytes => ⟨bytes, rfl⟩) _).of_runs hprompt e he)
    · exact .inr ((calls_readLine (P := fun c => c = .read 0 1) rfl _).of_runs hread e he)
  · cases read with
    | none =>
      obtain ⟨hnone, before, answer, rfl, hfailed⟩ := readLine_failed hread hl
      refine ⟨hcommand, (congrArg _ hkeys).trans hnone, prompt ++ before, answer, ?_, hfailed⟩
      exact (List.append_assoc ..).symm
    | some line => exact ⟨hcommand, line, (congrArg _ hkeys).trans (readLine_typed hread hl), rfl⟩

/-- The bytes of the lines that were read to their end. -/
def entered (turns : List Turn) : Bytes := (turns.filter (·.dispatched.isSome)).flatMap Turn.keys

theorem shellLoop_entered {w : Word} {turns : List Turn} (h : ∀ turn ∈ turns, turn.Ran w)
    (hnul : 0 ∉ entered turns) : shellLoop (entered turns) = turns.filterMap (·.dispatched) := by
  induction turns with
  | nil => exact shellLoop_nil
  | cons turn turns ih =>
    obtain ⟨hturn, hrest⟩ := List.forall_mem_cons.mp h
    cases hd : turn.dispatched with
    | none =>
      have hentered : entered (turn :: turns) = entered turns := by simp [entered, hd]
      rw [hentered] at hnul ⊢
      rw [List.filterMap_cons_none hd]
      exact ih hrest hnul
    | some argv =>
      have hentered : entered (turn :: turns) = turn.keys ++ entered turns := by simp [entered, hd]
      rw [hentered] at hnul ⊢
      rw [List.mem_append, not_or] at hnul
      rw [Turn.Ran, hd] at hturn
      obtain ⟨-, _, line, hline, rfl⟩ := hturn
      have hplain : 0 ∉ line := by
        intro hmem
        obtain hnone | hkeys := mem_of_readLineFrom hline 0 hmem
        · cases hnone
        · exact hnul.1 hkeys
      rw [shellLoop_keys _ hline, ih hrest hnul.2, List.filterMap_cons_some hd, cstr_eq_self hplain]

/-! ## Sessions -/

/-- A session of some turns. -/
structure Session (w : Word) (n : Nat) (t : Trace Call Reply) (turns : List Turn) : Prop where
  count : turns.length = n
  parts : ∃ first, Runs startUp first () ∧ t = first ++ turns.flatMap Turn.trace
  ran : ∀ turn ∈ turns, turn.Ran w

theorem session_of_runs {w : Word} {n : Nat} {t : Trace Call Reply} (h : Runs (rounds w n) t ())
    (hl : Legal t) : ∃ turns, Session w n t turns := by
  induction n generalizing t with
  | zero => exact ⟨[], rfl, ⟨t, h, (List.append_nil t).symm⟩, fun _ h => absurd h List.not_mem_nil⟩
  | succ n ih =>
    obtain ⟨before, last, _, rfl, hbefore, hlast⟩ := runs_bind.mp h
    obtain ⟨hlBefore, hlLast⟩ := legal_append.mp hl
    obtain ⟨turns, hturns⟩ := ih hbefore hlBefore
    obtain ⟨turn, rfl, hran⟩ := runs_shellTurn hlast hlLast
    obtain ⟨first, hfirst, rfl⟩ := hturns.parts
    refine ⟨turns ++ [turn], by simp [hturns.count], ⟨first, hfirst, by simp⟩, ?_⟩
    intro other hother
    obtain hother | hother := List.mem_append.mp hother
    · exact hturns.ran other hother
    · exact List.mem_singleton.mp hother ▸ hran

/-- In every session, whatever the commands do and whichever reads fail, the
argument vectors that are dispatched are those of `shellLoop` on the lines that
were entered. -/
theorem session_dispatches_shellLoop {w : Word} {n : Nat} {t : Trace Call Reply}
    (h : Runs (rounds w n) t ()) (hl : Legal t) :
    ∃ turns, Session w n t turns ∧
      (0 ∉ entered turns → shellLoop (entered turns) = turns.filterMap (·.dispatched)) := by
  obtain ⟨turns, hturns⟩ := session_of_runs h hl
  exact ⟨turns, hturns, shellLoop_entered hturns.ran⟩

theorem entered_subset {w : Word} {n : Nat} {t : Trace Call Reply} {turns : List Turn}
    (h : Session w n t turns) : entered turns ⊆ typed t := by
  obtain ⟨first, _, rfl⟩ := h.parts
  intro c hc
  obtain ⟨turn, hturn, hc⟩ := List.mem_flatMap.mp hc
  rw [typed_append, List.mem_append]
  right
  obtain ⟨e, he, hbyte⟩ := List.mem_flatMap.mp hc
  exact List.mem_flatMap.mpr ⟨e, List.mem_flatMap.mpr
    ⟨turn, (List.mem_filter.mp hturn).1, List.mem_append_left _ he⟩, hbyte⟩

theorem session_dispatches_shellLoop_rm : ∃ t turns, Session .rv32 1 t turns ∧
    typed t = ascii "rm x\n" ∧ shellLoop (entered turns) = turns.filterMap (·.dispatched) := by
  obtain ⟨t, _, ht, hl, htyped⟩ : ∃ t a, Runs (rounds .rv32 1) t a ∧ Legal t ∧
      typed t = ascii "rm x\n" :=
    exists_runs_of_exec typingKeys 120 ((ascii "rm x\n").map fun c => ⟨1, [c], []⟩)
      (P := fun t => Legal t ∧ typed t = ascii "rm x\n") (by decide +kernel)
  obtain ⟨turns, hsession, hloop⟩ := session_dispatches_shellLoop ht hl
  refine ⟨t, turns, hsession, htyped, hloop fun hnul => ?_⟩
  have hmem := entered_subset hsession hnul
  rw [htyped] at hmem
  exact absurd hmem (by decide)

end LinuxBuild.Payload
