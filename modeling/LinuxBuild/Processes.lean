import LinuxBuild.Authority

/-!
# The processes of a session

PID 1 is the shell and stays the shell: it never turns into another program and
never exits. A child it starts runs the program or says that it cannot, exits
and is gone, and the shell waits for it before it does anything else. A child
that the kernel did not let it wait for is left over.
-/

namespace LinuxBuild.Payload

open Interaction

/-- The call that waits for one process. -/
def waitCall (w : Word) (processId : Nat) : Call :=
  match w with
  | .rv64 => .wait4 processId 0
  | .rv32 => .waitid 1 processId 4

/-- What a process of the session is doing. -/
inductive Stage where
  /-- The shell, with the children it could not wait for. -/
  | shell (left : List Nat)
  /-- The shell has started the process. -/
  | waiting (left : List Nat) (processId : Nat)
  | child
  /-- The child could not run its program. -/
  | failed
  | gone
  deriving DecidableEq, Repr

/-- The call starts a process, waits for one, turns this one into a program or ends
it. -/
def Call.isProcess : Call → Bool
  | .clone _ | .execve _ _ | .exit _ | .wait4 _ _ | .waitid _ _ _ => true
  | _ => false

/-- The process that a call waits for. -/
def Call.awaited : Call → Option Nat
  | .wait4 processId _ | .waitid _ processId _ => some processId
  | _ => none

/-- The process that a failed wait leaves over. -/
def leftBy (c : Call) (r : Reply) : Option Nat := if r.value < 0 then c.awaited else none

/-- The processes whose wait was answered with an error, the last one first. -/
def unwaited (t : Trace Call Reply) : List Nat :=
  (t.filterMap fun e => leftBy e.1 e.2).reverse

namespace Stage

def next (s : Stage) (c : Call) (r : Reply) : Stage :=
  match s, c with
  | .shell left, .clone _ =>
    if r.value < 0 then .shell left else if r.value = 0 then .child
    else .waiting left r.value.toNat
  | .waiting left processId, _ => .shell (if r.value < 0 then processId :: left else left)
  | .child, _ => .failed
  | .failed, .exit _ => .gone
  | s, _ => s

/-- The calls of a process at a stage. -/
def Allows (w : Word) (s : Stage) (c : Call) : Prop :=
  match s with
  | .shell _ => c.isProcess = true → c = .clone sigchld
  | .waiting _ processId => c = waitCall w processId
  | .child => ∃ argv, c = .execve (argv.headD []) argv
  | .failed => (∃ bytes, c = .write 1 bytes) ∨ c = .exit 127
  | .gone => False

end Stage

/-- The kernel answers anything. -/
def processes (w : Word) : Monitor Call Reply Stage where
  may _ _ _ := True
  must := Stage.Allows w
  next := Stage.next

/-- The stage of the process that has made the calls of the trace. -/
def stageAfter (s : Stage) (t : Trace Call Reply) : Stage :=
  t.foldl (fun s e => s.next e.1 e.2) s

theorem processes_follows (w : Word) (s : Stage) (t : Trace Call Reply) :
    (processes w).Follows s t := by
  induction t generalizing s with
  | nil => trivial
  | cons e t ih => exact ⟨trivial, ih _⟩

/-- The process is the shell's own, between two programs. -/
def AtPrompt (s : Stage) : Prop := ∃ left, s = .shell left

/-- The program is part of the shell and comes back to it, if it comes back. -/
def InShell {α : Type} (w : Word) (p : Sys α) : Prop :=
  ∀ left, Meets (processes w) p (.shell left) fun _ s => AtPrompt s

/-! ## The children left over -/

/-- The children that the shell's own process has left over. -/
def Stage.left : Stage → Option (List Nat)
  | .shell left | .waiting left _ => some left
  | .child | .failed | .gone => none

theorem left_next {w : Word} {s : Stage} {c : Call} {r : Reply} (hc : s.Allows w c)
    {left : List Nat} (h : (s.next c r).left = some left) :
    ∃ before, s.left = some before ∧ left = (leftBy c r).toList ++ before := by
  cases s with
  | shell before =>
    refine ⟨before, rfl, ?_⟩
    cases hprocess : c.isProcess with
    | true =>
      obtain rfl := hc hprocess
      have hnone : leftBy (.clone sigchld) r = none := ite_self none
      rw [hnone]
      simp only [Stage.next] at h
      split at h
      · exact (Option.some.inj h).symm
      · split at h
        · cases h
        · exact (Option.some.inj h).symm
    | false =>
      have hnone : leftBy c r = none := by
        cases c <;> first | exact ite_self none | cases hprocess
      have hstays : (Stage.shell before).next c r = .shell before := by
        cases c <;> first | rfl | cases hprocess
      rw [hstays] at h
      rw [hnone]
      exact (Option.some.inj h).symm
  | waiting before processId =>
    refine ⟨before, rfl, ?_⟩
    obtain rfl : c = waitCall w processId := hc
    have hawaited : (waitCall w processId).awaited = some processId := by cases w <;> rfl
    cases h
    rw [leftBy, hawaited]
    split <;> rfl
  | child => cases h
  | failed => cases c <;> cases h
  | gone => exact absurd hc id

/-- The shell's own process knows exactly the children it could not wait for. -/
theorem left_eq_unwaited {w : Word} {t : Trace Call Reply}
    (h : ∀ u e v, t = u ++ e :: v → (stageAfter (.shell []) u).Allows w e.1) {left : List Nat}
    (hleft : (stageAfter (.shell []) t).left = some left) : left = unwaited t := by
  induction t using List.reverseRecOn generalizing left with
  | nil =>
    cases hleft
    rfl
  | append_singleton t e ih =>
    have hafter : stageAfter (.shell []) (t ++ [e]) =
        (stageAfter (.shell []) t).next e.1 e.2 := List.foldl_concat ..
    rw [hafter] at hleft
    obtain ⟨before, hbefore, rfl⟩ := left_next (h t e [] rfl) hleft
    have hearlier : ∀ u e' v, t = u ++ e' :: v → (stageAfter (.shell []) u).Allows w e'.1 :=
      fun u e' v ht => h u e' (v ++ [e]) (by rw [ht, List.append_assoc]; rfl)
    rw [ih hearlier hbefore, unwaited, unwaited, List.filterMap_append, List.reverse_append]
    cases hlast : leftBy e.1 e.2 <;> simp [hlast]

section

variable {w : Word} {α β : Type}

theorem InShell.bind {p : Sys β} {f : β → Sys α} (hp : InShell w p) (hf : ∀ b, InShell w (f b)) :
    InShell w (.bind p f) := by
  intro left
  refine Meets.bind ((hp left).weaken ?_)
  rintro b _ ⟨after, rfl⟩
  exact hf b after

/-- Calls that have nothing to do with processes leave the shell where it is. -/
theorem shell_of_calls {p : Sys α} (h : CallsOnly (fun c => c.isProcess = false) p)
    (left : List Nat) : Meets (processes w) p (.shell left) fun _ s => s = .shell left := by
  have hstays : ∀ (t : Trace Call Reply), (∀ e ∈ t, e.1.isProcess = false) →
      (processes w).after (.shell left) t = .shell left := by
    intro t ht
    induction t with
    | nil => rfl
    | cons e t ih =>
      have hnext : (processes w).next (.shell left) e.1 e.2 = .shell left := by
        have := ht e List.mem_cons_self
        obtain ⟨c, r⟩ := e
        cases c <;> first | rfl | cases this
      rw [Monitor.after_cons, hnext]
      exact ih fun x hx => ht x (List.mem_cons_of_mem _ hx)
  constructor
  · intro t c hm _
    rw [hstays t (h.of_makes hm)]
    intro hc
    rw [h t c hm] at hc
    cases hc
  · intro t a hr _
    exact hstays t (h.of_runs hr)

theorem inShell_of_calls {p : Sys α} (h : CallsOnly (fun c => c.isProcess = false) p) :
    InShell w p := fun left => (shell_of_calls h left).weaken fun _ _ hs => ⟨left, hs⟩

theorem inShell_puts (text : Bytes) : InShell w (putsRaw text) :=
  inShell_of_calls (calls_putsRaw (fun _ => rfl) _)

theorem inShell_error (command : Bytes) (target : Option Bytes) :
    InShell w (printError command target) :=
  inShell_of_calls (calls_printError (fun _ => rfl) _ _)

/-! ## Starting a program -/

/-- What the child prints leaves it where it is. -/
theorem failed_of_calls {p : Sys α} (h : CallsOnly (fun c => ∃ bytes, c = .write 1 bytes) p) :
    Meets (processes w) p .failed fun _ s => s = .failed := by
  have hstays : ∀ (t : Trace Call Reply), (∀ e ∈ t, ∃ bytes, e.1 = .write 1 bytes) →
      (processes w).after .failed t = .failed := by
    intro t ht
    induction t with
    | nil => rfl
    | cons e t ih =>
      have hnext : (processes w).next .failed e.1 e.2 = .failed := by
        obtain ⟨bytes, hbytes⟩ := ht e List.mem_cons_self
        rw [hbytes]
        rfl
      rw [Monitor.after_cons, hnext]
      exact ih fun x hx => ht x (List.mem_cons_of_mem _ hx)
  constructor
  · intro t c hm _
    rw [hstays t (h.of_makes hm)]
    exact .inl (h t c hm)
  · intro t a hr _
    exact hstays t (h.of_runs hr)

/-- The child runs its program, or reports, exits and does nothing more. -/
theorem child_ends (argv : List Bytes) (post : α → Stage → Prop) :
    Meets (processes w) (runChild (argv.headD []) argv) .child post := by
  refine .bind (.bind (.call ⟨argv, rfl⟩ fun _ _ => .ret (.ret ?_)))
  refine .bind ((failed_of_calls (calls_printError (fun bytes => ⟨bytes, rfl⟩) _ _)).weaken ?_)
  rintro _ _ rfl
  refine .bind (.call (.inr rfl) fun _ _ => .ret ?_)
  refine .loop (fun _ _ => True) (fun _ _ _ => ?_) trivial
  exact .bind (.ret (.ret (by exact trivial)))

theorem inShell_wait (left : List Nat) (processId : Nat) :
    Meets (processes w) (sysWait4 w processId 0) (.waiting left processId) fun _ s =>
      AtPrompt s := by
  cases w with
  | rv64 => exact .bind (.call rfl fun _ _ => .ret (.ret ⟨_, rfl⟩))
  | rv32 =>
    refine .bind (.call rfl fun r _ => .ret ?_)
    split
    · exact .ret ⟨_, rfl⟩
    · split
      · exact .ret ⟨_, rfl⟩
      · exact .ret ⟨_, rfl⟩

/-- The shell comes back from a program only when it has waited for it. -/
theorem inShell_runProgram (argv : List Bytes) : InShell w (runProgram w argv) := by
  intro left
  refine Meets.bind (.call (fun _ => rfl) fun r _ => .ret ?_)
  have hnext : (processes w).next (.shell left) (.clone sigchld) r =
      if r.value < 0 then .shell left else if r.value = 0 then .child
      else .waiting left r.value.toNat := rfl
  rw [hnext]
  by_cases hfailed : r.value < 0
  · rw [if_pos hfailed, if_pos hfailed]
    exact inShell_error _ _ left
  · rw [if_neg hfailed, if_neg hfailed]
    by_cases hchild : r.value = 0
    · rw [if_pos hchild, if_pos hchild]
      exact child_ends argv _
    · rw [if_neg hchild, if_neg hchild]
      refine Meets.bind ((inShell_wait left _).weaken ?_)
      rintro ⟨result, waitStatus⟩ _ ⟨after, rfl⟩
      dsimp only
      split
      · exact inShell_error _ _ after
      · unfold showStatus
        have hprint : ∀ value, InShell w (printUnsigned value) := fun value =>
          inShell_of_calls (calls_printUnsigned (fun _ => rfl) value)
        split
        · exact ((inShell_puts _).bind fun _ => (hprint _).bind fun _ => inShell_puts _) after
        · exact ((inShell_puts _).bind fun _ => (hprint _).bind fun _ => inShell_puts _) after

/-- Only two command lines start a program. -/
theorem starts_of_authorized {name : Bytes} {args : List Bytes} {c : Call}
    (h : Authorized w (name :: args) c) (hc : c.isProcess = true) :
    name = ascii "run" ∨ '/'.toUInt8 ∈ name := by
  obtain hplain | hpermits := h
  · cases c <;> simp [Call.isPlain, Call.isProcess] at hplain hc
  · cases hpermits with
    | run => exact .inl rfl
    | program hslash => exact .inr hslash
    | mountDefaults hmount =>
      have hnone : defaultMounts.all (fun c => !c.isProcess) = true := by decide
      have := List.all_eq_true.mp hnone c hmount
      rw [hc] at this
      cases this
    | _ => cases hc

theorem inShell_cmdRun (argv : List Bytes) : InShell w (cmdRun w argv) := by
  unfold cmdRun
  split
  · exact inShell_runProgram _
  · exact inShell_of_calls (calls_putLine (fun _ => rfl) _)

theorem inShell_runCommand (argv : List Bytes) : InShell w (runCommand w argv) := by
  cases argv with
  | nil => exact fun left => .ret ⟨left, rfl⟩
  | cons name args =>
    by_cases hstarts : name = ascii "run" ∨ '/'.toUInt8 ∈ name
    · obtain rfl | hslash := hstarts
      · have hfind : (commands w).find? (fun command => ascii "run" = ascii command.1) =
            some ("run", cmdRun w) := by
          simp +decide only [commands, List.find?_cons, decide_false, decide_true]
        rw [runCommand, hfind]
        exact inShell_cmdRun _
      · have hfind : (commands w).find? (fun command => name = ascii command.1) = none := by
          rw [List.find?_eq_none]
          intro command hmem hname
          have hnone : (commands w).all (fun command => '/'.toUInt8 ∉ ascii command.1) = true := by
            cases w <;> decide +kernel
          have hplain := List.all_eq_true.mp hnone command hmem
          rw [← of_decide_eq_true hname] at hplain
          exact of_decide_eq_true hplain hslash
        rw [runCommand, hfind]
        dsimp only
        rw [if_pos hslash]
        exact inShell_runProgram _
    · apply inShell_of_calls
      intro t c hm
      cases hc : c.isProcess with
      | false => rfl
      | true => exact absurd (starts_of_authorized (authorized_runCommand w _ t c hm) hc) hstarts

theorem inShell_shellTurn (w : Word) : InShell w (shellTurn w) := by
  apply (inShell_puts _).bind
  intro _
  apply (inShell_of_calls (p := readLine lineCapacity) ?_).bind
  · intro read
    cases read with
    | none => exact inShell_puts _
    | some line => exact inShell_runCommand _
  · intro t c hm
    have hplain := plain_readLine lineCapacity t c hm
    cases c <;> first | rfl | cases hplain

theorem inShell_startUp (w : Word) : InShell w startUp := by
  apply inShell_of_calls
  refine .bind (authorized_mountDefaults fun c hc => ?_) fun _ => calls_putLine (fun _ => rfl) _
  have hnone : defaultMounts.all (fun c => !c.isProcess) = true := by decide
  exact Bool.not_eq_true' _ ▸ List.all_eq_true.mp hnone c hc

theorem inShell_rounds (w : Word) (n : Nat) : InShell w (rounds w n) := by
  induction n with
  | zero => exact inShell_startUp w
  | succ n ih => exact ih.bind fun _ => inShell_shellTurn w

/-- The shell as a whole, which does not come back. -/
theorem meets_start (w : Word) (left : List Nat) :
    Meets (processes w) (start w : Sys α) (.shell left) fun _ _ => False := by
  refine Meets.bind ((inShell_startUp w left).weaken ?_)
  rintro _ _ hprompt
  refine .loop (fun _ s => AtPrompt s) ?_ hprompt
  rintro _ _ ⟨left, rfl⟩
  refine Meets.bind ((inShell_shellTurn w left).weaken ?_)
  rintro _ _ hprompt
  exact .ret (by exact hprompt)

end

/-- In every session each process keeps to its stage. The shell starts children
and nothing else of the kind, and waits for each of them by its number before
it makes another call; a child runs its program, or reports, exits with 127 and
makes no further call. Only the shell reaches a prompt, it never ends, and the
children left over there are those whose wait was answered with an error. -/
theorem processes_keep_stage {α : Type} (w : Word) :
    (∀ t c, Makes (start w : Sys α) t c → (stageAfter (.shell []) t).Allows w c) ∧
      (∀ n t, Runs (rounds w n) t () → stageAfter (.shell []) t = .shell (unwaited t)) ∧
      ∀ t a, ¬ Runs (start w : Sys α) t a := by
  refine ⟨fun t c hm => ?_, fun n t hr => ?_, fun t a hr => ?_⟩
  · exact (meets_start w []).calls hm (processes_follows w _ t)
  · obtain ⟨left, hleft⟩ := (inShell_rounds w n []).returns hr (processes_follows w _ t)
    have hallowed : ∀ u e v, t = u ++ e :: v → (stageAfter (.shell []) u).Allows w e.1 :=
      fun u e v ht => (inShell_rounds w n []).calls (hr.makes ht) (processes_follows w _ u)
    have hstage : stageAfter (.shell []) t = .shell left := hleft
    rw [hstage, left_eq_unwaited hallowed (congrArg Stage.left hstage)]
  · exact (meets_start w []).returns hr (processes_follows w _ t)

/-- A kernel where every program is process 7. -/
def startsSeven : List Reply → Call → Reply × List Reply
  | keys, .clone _ => (⟨7, [], []⟩, keys)
  | keys, c => typingKeys keys c

/-- After `/x` is typed, the shell waits for process 7. -/
theorem processes_keep_stage_waits :
    ∃ t, Makes (start .rv64 : Sys Empty) t (.wait4 7 0) ∧
      stageAfter (.shell []) t = .waiting [] 7 ∧
      (stageAfter (.shell []) t).Allows .rv64 (.wait4 7 0) := by
  let keys : List Reply := (ascii "/x\n").map fun c => ⟨1, [c], []⟩
  obtain ⟨u, _, hu, hstage⟩ : ∃ u a, Runs startUp u a ∧ stageAfter (.shell []) u = .shell [] :=
    exists_runs_of_exec startsSeven 60 keys (by decide +kernel)
  obtain ⟨v, _, hv, hwaiting, hcall⟩ : ∃ v a, Runs (shellTurn .rv64) v a ∧
      stageAfter (.shell []) (v.take 5) = .waiting [] 7 ∧
      (v.drop 5).take 1 = [(.wait4 7 0, ⟨0, [], []⟩)] :=
    exists_runs_of_exec startsSeven 60 keys (P := fun v =>
      stageAfter (.shell []) (v.take 5) = .waiting [] 7 ∧
      (v.drop 5).take 1 = [(.wait4 7 0, ⟨0, [], []⟩)]) (by decide +kernel)
  have hsplit : v = v.take 5 ++ (.wait4 7 0, ⟨0, [], []⟩) :: v.drop 6 := by
    calc v = v.take 5 ++ ((v.drop 5).take 1 ++ (v.drop 5).drop 1) := by
          rw [List.take_append_drop, List.take_append_drop]
      _ = _ := by rw [hcall, List.drop_drop]; rfl
  have hmakes : Makes (start .rv64 : Sys Empty) (u ++ v.take 5) (.wait4 7 0) :=
    .second hu (.turn (.first (hv.makes hsplit)))
  have hafter : stageAfter (.shell []) (u ++ v.take 5) = .waiting [] 7 := by
    rw [stageAfter, List.foldl_append]
    exact (congrArg (stageAfter · (v.take 5)) hstage).trans hwaiting
  exact ⟨_, hmakes, hafter, (processes_keep_stage .rv64).1 _ _ hmakes⟩

end LinuxBuild.Payload
