import LinuxBuild.Decimals
import LinuxBuild.FetchRun

/-!
# How a child ends

The kernel reports a change of a child's state in two ways: `wait4` stores a
status word, `waitid` a record with the kind of change and a number. RV32 has
`waitid` only, and `sys_wait4` puts the word together from the record.
-/

namespace LinuxBuild.Payload

open Interaction

/-! ## What the kernel reports -/

abbrev Signal := { n : Nat // 0 < n ∧ n ≤ 64 }

/-- A change of state of a child that is not traced. -/
inductive Change where
  | exited (code : Nat)
  | killed (signal : Signal) (core : Bool)
  | stopped (signal : Signal)
  | continued
  deriving DecidableEq, Repr

namespace Change

/-- The word `wait4` stores. The kernel keeps eight bits of an exit code. -/
def word : Change → Nat
  | exited code => (code % 256) <<< 8
  | killed signal core => signal.1 ||| if core then 0x80 else 0
  | stopped signal => signal.1 <<< 8 ||| 0x7f
  | continued => 0xffff

/-- `si_code` and `si_status` of the record `waitid` stores. -/
def cause : Change → Nat × Nat
  | exited code => (1, code % 256)
  | killed signal core => (if core then 3 else 2, signal.1)
  | stopped signal => (5, signal.1)
  | continued => (6, 18)

end Change

/-- What a wait for one process comes to. -/
inductive Found where
  | error (errno : Nat)
  | nothing
  | changed (change : Change) (user : Nat)
  deriving DecidableEq, Repr

def le32 (value : Nat) : Bytes := (List.range 4).map fun i => UInt8.ofNat (value >>> (8 * i))

/-- The fields of `siginfo_t` that `waitid` stores. -/
def siginfo (signal code processId user status : Nat) : Bytes :=
  [signal, 0, code, processId, user, status].flatMap le32

namespace Found

def wait4Reply (processId : Nat) : Found → Reply
  | error errno => ⟨-errno, [], []⟩
  | nothing => ⟨0, [], []⟩
  | changed change _ => ⟨processId, le32 change.word, []⟩

def waitidReply (processId : Nat) : Found → Reply
  | error errno => ⟨-errno, [], []⟩
  | nothing => ⟨0, siginfo 0 0 0 0 0, []⟩
  | changed change user =>
    ⟨0, siginfo sigchld change.cause.1 processId user change.cause.2, []⟩

/-- What `sys_wait4` is to make of it. -/
def outcome (processId : Nat) : Found → Int × Option Nat
  | error errno => (-errno, none)
  | nothing => (0, none)
  | changed change _ => (processId, some change.word)

end Found

def einval : Nat := 22

/-- `WNOHANG`, `WUNTRACED`, `WCONTINUED`, `__WNOTHREAD`, `__WALL` and `__WCLONE`. -/
def wait4Options : Nat := 0x1 ||| 0x2 ||| 0x8 ||| 0x20000000 ||| 0x40000000 ||| 0x80000000

def wexited : Nat := 4

/-- `waitid` takes `WEXITED` and `WNOWAIT` as well. -/
def waitidOptions : Nat := wait4Options ||| (wexited ||| 0x01000000)

/-- Every bit of the options is one of the mask. -/
def Within (mask options : Nat) : Prop := options ||| mask = mask

instance (mask options : Nat) : Decidable (Within mask options) :=
  inferInstanceAs (Decidable (_ = _))

/-- A kernel: how it looks for a child with the given number, and what it
answers to any other call. Both waits look the same way and refuse options they
do not know; `wait4` adds `WEXITED`. -/
structure Processes (ε : Type) where
  find : ε → Nat → Nat → Found × ε
  other : ε → Call → Reply × ε
  pid : ∀ e flags, (other e (.clone flags)).1.value < 2 ^ 31

namespace Processes

variable {ε : Type}

def answer (k : Processes ε) (e : ε) : Call → Reply × ε
  | .wait4 processId options =>
    if Within wait4Options options then
      let (found, e) := k.find e processId (options ||| wexited)
      (found.wait4Reply processId, e)
    else ((Found.error einval).wait4Reply processId, e)
  | .waitid 1 processId options =>
    if Within waitidOptions options then
      let (found, e) := k.find e processId options
      (found.waitidReply processId, e)
    else ((Found.error einval).waitidReply processId, e)
  | c => k.other e c

/-- Looking for a child with options of the mask. -/
def look (k : Processes ε) (mask processId options : Nat) (e : ε) : Found × ε :=
  if Within mask options then k.find e processId (options ||| wexited) else (.error einval, e)

/-- The kernel with a terminal that takes every byte. -/
def withConsole (k : Processes ε) : Processes (ε × Bytes) where
  find s processId options :=
    let (found, e) := k.find s.1 processId options
    (found, e, s.2)
  other s c :=
    match c with
    | .write 1 bytes => (⟨bytes.length, [], []⟩, s.1, s.2 ++ bytes)
    | c =>
      let (r, e) := k.other s.1 c
      (r, e, s.2)
  pid s flags := k.pid s.1 flags

end Processes

/-! ## The record and the word -/

theorem u32_le32 {value : Int} {x : Nat} {front back : Bytes} {revents : List Nat} {offset : Nat}
    (hx : x < 2 ^ 32) (hoffset : offset = front.length) :
    (⟨value, front ++ le32 x ++ back, revents⟩ : Reply).u32 offset = x := by
  subst hoffset
  simp only [Reply.u32, Reply.u16, le32, List.append_assoc, Nat.add_assoc]
  simp [List.range_succ, Nat.shiftRight_eq_div_pow]
  omega

namespace Change

theorem word_lt (c : Change) : c.word < 2 ^ 16 := by
  cases c with
  | exited code =>
    have : code % 256 < 2 ^ 8 := Nat.mod_lt _ (by decide)
    rw [word, Nat.shiftLeft_eq]
    omega
  | killed signal core =>
    have hsignal : signal.1 < 2 ^ 16 := by have := signal.2.2; omega
    apply Nat.or_lt_two_pow hsignal
    cases core <;> decide
  | stopped signal =>
    have hsignal : signal.1 <<< 8 < 2 ^ 16 := by
      have := signal.2.2
      rw [Nat.shiftLeft_eq]
      omega
    exact Nat.or_lt_two_pow hsignal (by decide)
  | continued => decide

theorem cause_lt (c : Change) : c.cause.1 < 2 ^ 32 ∧ c.cause.2 < 2 ^ 32 := by
  cases c with
  | exited code =>
    have : code % 256 < 256 := Nat.mod_lt _ (by decide)
    exact ⟨by simp [cause], by simp only [cause]; omega⟩
  | killed signal core =>
    have := signal.2.2
    exact ⟨by cases core <;> simp [cause], by simp only [cause]; omega⟩
  | stopped signal =>
    have := signal.2.2
    exact ⟨by simp [cause], by simp only [cause]; omega⟩
  | continued => decide

end Change

theorem siginfo_fields {r : Reply} {signal code processId user status : Nat}
    (hdata : r.data = siginfo signal code processId user status) (hcode : code < 2 ^ 32)
    (hpid : processId < 2 ^ 32) (hstatus : status < 2 ^ 32) :
    r.u32 8 = code ∧ r.u32 12 = processId ∧ r.u32 20 = status := by
  have hsplit : siginfo signal code processId user status =
      le32 signal ++ le32 0 ++ le32 code ++ le32 processId ++ le32 user ++ le32 status := by
    simp [siginfo]
  obtain ⟨value, data, revents⟩ := r
  simp only at hdata
  rw [hdata, hsplit]
  refine ⟨?_, ?_, ?_⟩
  · simp only [List.append_assoc]
    rw [← List.append_assoc, ← List.append_assoc]
    exact u32_le32 hcode rfl
  · rw [List.append_assoc (_ ++ _ ++ _ ++ le32 processId)]
    exact u32_le32 hpid rfl
  · rw [← List.append_nil (_ ++ le32 status)]
    exact u32_le32 hstatus rfl

theorem signal_and {signal : Nat} (h : signal ≤ 64) : signal &&& 127 = signal := by
  apply Nat.and_two_pow_sub_one_of_lt_two_pow (n := 7)
  omega

/-- The record gives back the word. -/
theorem waitStatus_siginfo (c : Change) {r : Reply} (hcode : r.u32 8 = c.cause.1)
    (hstatus : r.u32 20 = c.cause.2) : waitStatus r = some c.word := by
  rw [waitStatus, hcode, hstatus]
  cases c with
  | exited code =>
    have : code % 256 &&& 255 = code % 256 :=
      Nat.and_two_pow_sub_one_of_lt_two_pow (n := 8) (Nat.mod_lt _ (by decide))
    simp only [Change.cause, Change.word, this]
  | killed signal core =>
    have := signal_and signal.2.2
    cases core with
    | false => simp [Change.cause, Change.word, this]
    | true => simp [Change.cause, Change.word, this]
  | stopped signal =>
    have : signal.1 &&& 255 = signal.1 := by
      apply Nat.and_two_pow_sub_one_of_lt_two_pow (n := 8)
      have := signal.2.2
      omega
    simp only [Change.cause, Change.word, this]
  | continued => rfl

/-! ## The two calls -/

section

variable {ε : Type} (k : Processes ε) (processId options : Nat) (e : ε)

theorem yields_sysWait4_rv64 :
    Yields k.answer e (sysWait4 .rv64 processId options)
      ((k.look wait4Options processId options e).1.outcome processId)
      (k.look wait4Options processId options e).2 := by
  have hanswer : k.answer e (.wait4 processId options) =
      ((k.look wait4Options processId options e).1.wait4Reply processId,
        (k.look wait4Options processId options e).2) := by
    simp only [Processes.answer, Processes.look]
    split <;> rfl
  apply (Yields.bind_iff .ask).mpr
  rw [hanswer]
  cases (k.look wait4Options processId options e).1 with
  | error errno => exact .ret
  | nothing => exact .ret
  | changed c user =>
    have hword : (⟨processId, le32 c.word, []⟩ : Reply).u32 0 = c.word := by
      have hlt := c.word_lt
      rw [← List.append_nil (le32 c.word), ← List.nil_append (le32 c.word)]
      exact u32_le32 (by omega) rfl
    have hdata : le32 c.word ≠ [] := by simp [le32, List.range_succ]
    simp only [Found.wait4Reply, Found.outcome, if_neg hdata, hword]
    exact .ret

theorem within_or_wexited : Within waitidOptions (options ||| wexited) ↔
    Within waitidOptions options := by
  have hmask : wexited ||| waitidOptions = waitidOptions := by decide
  rw [Within, Within, Nat.or_assoc, hmask]

variable {processId}

theorem yields_sysWait4_rv32 (hpos : 0 < processId) (hint : processId < 2 ^ 31) :
    Yields k.answer e (sysWait4 .rv32 processId options)
      ((k.look waitidOptions processId options e).1.outcome processId)
      (k.look waitidOptions processId options e).2 := by
  have hanswer : k.answer e (.waitid 1 processId (options ||| 4)) =
      ((k.look waitidOptions processId options e).1.waitidReply processId,
        (k.look waitidOptions processId options e).2) := by
    have hwithin := within_or_wexited options
    simp only [wexited] at hwithin
    simp only [Processes.answer, Processes.look, hwithin, wexited]
    split <;> rfl
  apply (Yields.bind_iff .ask).mpr
  rw [hanswer]
  cases (k.look waitidOptions processId options e).1 with
  | error errno =>
    have hnone : (⟨-errno, [], []⟩ : Reply).u32 12 = 0 := rfl
    simp only [Found.waitidReply, Found.outcome, hnone]
    rw [if_pos (by simp)]
    exact .ret
  | nothing => exact .ret
  | changed c user =>
    have hreply : ((Found.changed c user).waitidReply processId).data =
        siginfo sigchld c.cause.1 processId user c.cause.2 := rfl
    obtain ⟨hcode, hpid, hstatus⟩ :=
      siginfo_fields hreply c.cause_lt.1 (by omega : processId < 2 ^ 32) c.cause_lt.2
    have hvalue : ((Found.changed c user).waitidReply processId).value = 0 := rfl
    have hchild : ¬ processId = 0 := by omega
    simp only [hvalue, hpid, hchild, waitStatus_siginfo c hcode hstatus]
    exact .ret

end

/-- `wait4` refuses the options and `waitid` takes them. -/
def OnlyWaitid (options : Nat) : Prop := Within waitidOptions options ∧ ¬ Within wait4Options options

instance (options : Nat) : Decidable (OnlyWaitid options) := inferInstanceAs (Decidable (_ ∧ _))

theorem within_waitid {options : Nat} (h : Within wait4Options options) :
    Within waitidOptions options := by
  rw [Within] at h ⊢
  rw [waitidOptions, ← Nat.or_assoc, h]

theorem look_eq {ε : Type} {k : Processes ε} {processId options : Nat} {e : ε}
    (h : ¬ OnlyWaitid options) :
    k.look waitidOptions processId options e = k.look wait4Options processId options e := by
  by_cases hwait : Within wait4Options options
  · rw [Processes.look, Processes.look, if_pos hwait, if_pos (within_waitid hwait)]
  · have hnot : ¬ Within waitidOptions options := fun hid => h ⟨hid, hwait⟩
    rw [Processes.look, Processes.look, if_neg hwait, if_neg hnot]

/-! ## `run` -/

/-- The line for the end of a child. -/
def Change.line : Change → Option Bytes
  | .exited code => some (ascii "exit " ++ decimalText (code % 256) ++ ascii "\n")
  | .killed signal _ => some (ascii "signal " ++ decimalText signal.1 ++ ascii "\n")
  | _ => none

section

variable {ε : Type} (k : Processes ε)

theorem yields_console_putsRaw (text out : Bytes) (e : ε) :
    Yields k.withConsole.answer (e, out) (putsRaw text) () (e, out ++ text) := by
  apply yields_putsRaw_of (fun text s => (s.1, s.2 ++ text))
  · intro s bytes
    rfl
  · intro s
    simp

theorem yields_console_printUnsigned (value : Nat) (out : Bytes) (e : ε) :
    Yields k.withConsole.answer (e, out) (printUnsigned value) () (e, out ++ decimalText value) := by
  rw [decimalText_eq (decimal_unsignedDigits (Nat.lt_succ_self value))]
  apply yields_printDigits_of (fun text s => (s.1, s.2 ++ text))
  · intro s bytes
    rfl
  · intro s
    simp
  · intro a b s
    simp

theorem yields_console_line (word : String) (value : Nat) (out : Bytes) (e : ε) :
    Yields k.withConsole.answer (e, out)
      (.bind (putsRaw (ascii word)) fun _ => .bind (printUnsigned value) fun _ =>
        putsRaw (ascii "\n")) ()
      (e, out ++ (ascii word ++ decimalText value ++ ascii "\n")) := by
  rw [← List.append_assoc, ← List.append_assoc]
  apply Yields.bind (yields_console_putsRaw k _ _ e)
  apply Yields.bind (yields_console_printUnsigned k _ _ e)
  exact yields_console_putsRaw k _ _ e

theorem yields_showStatus {c : Change} {text : Bytes} (hline : c.line = some text) (out : Bytes)
    (e : ε) :
    Yields k.withConsole.answer (e, out) (showStatus c.word) () (e, out ++ text) := by
  cases c with
  | exited code =>
    obtain rfl := Option.some.inj hline
    have hlow : (Change.exited code).word &&& 0x7f = 0 := by
      rw [Change.word, Nat.and_two_pow_sub_one_eq_mod _ 7, Nat.shiftLeft_eq]
      omega
    have hcode : (Change.exited code).word >>> 8 &&& 0xff = code % 256 := by
      rw [Change.word, Nat.and_two_pow_sub_one_eq_mod _ 8, Nat.shiftLeft_shiftRight, Nat.mod_mod]
    rw [showStatus, if_pos hlow, hcode]
    exact yields_console_line k _ _ out e
  | killed signal core =>
    obtain rfl := Option.some.inj hline
    have hlow : (Change.killed signal core).word &&& 0x7f = signal.1 := by
      have hcore : (if core then 0x80 else 0) &&& 0x7f = 0 := by cases core <;> rfl
      rw [Change.word, Nat.and_or_distrib_right, signal_and signal.2.2, hcore, Nat.or_zero]
    have hpos := signal.2.1
    rw [showStatus, if_neg (by omega), hlow]
    exact yields_console_line k _ _ out e
  | stopped signal => cases hline
  | continued => cases hline

end

/-- What a parent does with the number of its child. -/
theorem yields_runProgram {ε : Type} {k : Processes ε} (w : Word) (argv : List Bytes) {e e' : ε} :
    Yields k.answer e (runProgram w argv) () e' ↔
      let r := (k.other e (.clone sigchld)).1
      let e₁ := (k.other e (.clone sigchld)).2
      if r.value < 0 then
        Yields k.answer e₁ (printError (ascii "run") (some (ascii "clone"))) () e'
      else if r.value = 0 then Yields k.answer e₁ (runChild (argv.headD []) argv) () e'
      else
        let found := k.look wait4Options r.value.toNat 0 e₁
        Yields k.answer found.2
          (if (found.1.outcome r.value.toNat).1 < 0 then
            printError (ascii "run") (some (ascii "wait4"))
          else showStatus ((found.1.outcome r.value.toNat).2.getD 0)) () e' := by
  have hclone : Yields k.answer e (.ask (.clone sigchld)) (k.other e (.clone sigchld)).1
      (k.other e (.clone sigchld)).2 := .ask
  have hint := k.pid e sigchld
  rw [runProgram]
  apply hclone.bind_iff.trans
  revert hint
  generalize k.other e (.clone sigchld) = x
  obtain ⟨r, e₁⟩ := x
  intro hint
  simp only at hint ⊢
  split
  · exact Iff.rfl
  · split
    · exact Iff.rfl
    · have hwait : Yields k.answer e₁ (sysWait4 w r.value.toNat 0)
          ((k.look wait4Options r.value.toNat 0 e₁).1.outcome r.value.toNat)
          (k.look wait4Options r.value.toNat 0 e₁).2 := by
        cases w with
        | rv64 => exact yields_sysWait4_rv64 k _ 0 e₁
        | rv32 =>
          rw [← look_eq (by decide : ¬ OnlyWaitid 0)]
          exact yields_sysWait4_rv32 k 0 e₁ (by omega) (by omega)
      exact hwait.bind_iff

/-- Nobody can tell the two calls apart unless `wait4` alone refuses the options. -/
theorem sysWait4_same_iff {processId : Nat} (hpos : 0 < processId) (hint : processId < 2 ^ 31)
    (options : Nat) :
    (∀ (ε : Type) (k : Processes ε) (e e' : ε) (a : Int × Option Nat),
      Yields k.answer e (sysWait4 .rv32 processId options) a e' ↔
        Yields k.answer e (sysWait4 .rv64 processId options) a e') ↔ ¬ OnlyWaitid options := by
  constructor
  · rintro h ⟨hid, hwait⟩
    let k : Processes Unit := ⟨fun _ _ _ => (.nothing, ()), fun _ _ => (⟨0, [], []⟩, ()),
      fun _ _ => by decide⟩
    have h32 := yields_sysWait4_rv32 k options () hpos hint
    have h64 := yields_sysWait4_rv64 k processId options ()
    have hvalue := (((h Unit k () _ _).mp h32).unique h64).1
    simp only [Processes.look, if_pos hid, if_neg hwait, k, Found.outcome] at hvalue
    exact absurd (congrArg Prod.fst hvalue) (by decide)
  · intro h ε k e e' a
    have h32 := yields_sysWait4_rv32 k options e hpos hint
    have h64 := yields_sysWait4_rv64 k processId options e
    rw [look_eq h] at h32
    constructor
    · intro ha
      obtain ⟨rfl, rfl⟩ := h32.unique ha
      exact h64
    · intro ha
      obtain ⟨rfl, rfl⟩ := h64.unique ha
      exact h32

/-- The child's end is printed, on either word. -/
theorem runProgram_prints {ε : Type} {k : Processes ε} (w : Word) (argv : List Bytes) {e e₂ : ε}
    {out text : Bytes} {processId user : Nat} {c : Change} (hpos : 0 < processId)
    (hclone : (k.other e (.clone sigchld)).1.value = processId)
    (hfind : k.find (k.other e (.clone sigchld)).2 processId wexited = (.changed c user, e₂))
    (hline : c.line = some text) :
    Yields k.withConsole.answer (e, out) (runProgram w argv) () (e₂, out ++ text) := by
  have hother : k.withConsole.other (e, out) (.clone sigchld) =
      ((k.other e (.clone sigchld)).1, (k.other e (.clone sigchld)).2, out) := rfl
  have hlook : k.withConsole.look wait4Options processId 0 ((k.other e (.clone sigchld)).2, out) =
      (.changed c user, e₂, out) := by
    have hzero : 0 ||| wexited = wexited := rfl
    rw [Processes.look, if_pos (by decide), hzero]
    simp only [Processes.withConsole, hfind]
  have hnonneg : ¬ (processId : Int) < 0 := by omega
  have hparent : ¬ (processId : Int) = 0 := by omega
  rw [yields_runProgram]
  simp only [hother, hclone, if_neg hnonneg, if_neg hparent, Int.toNat_natCast, hlook,
    Found.outcome, Option.getD_some]
  exact yields_showStatus k hline out e₂

/-- For options that `wait4` takes, or that `waitid` refuses as well, `sys_wait4`
returns the same and stores the same word on RV32 and on RV64, and so `run`
prints the same line for every end of its child. -/
theorem sysWait4_rv32_refines {processId : Nat} (hpos : 0 < processId)
    (hint : processId < 2 ^ 31) :
    (∀ options, ¬ OnlyWaitid options → ∀ (ε : Type) (k : Processes ε) (e : ε),
      let found := k.look wait4Options processId options e
      Yields k.answer e (sysWait4 .rv64 processId options) (found.1.outcome processId) found.2 ∧
      ∀ a e', Yields k.answer e (sysWait4 .rv32 processId options) a e' ↔
        Yields k.answer e (sysWait4 .rv64 processId options) a e') ∧
    ∀ (ε : Type) (k : Processes ε) (argv : List Bytes) (e : ε),
      (∀ e', Yields k.answer e (runProgram .rv32 argv) () e' ↔
        Yields k.answer e (runProgram .rv64 argv) () e') ∧
      ∀ w e₂ out text user c, (k.other e (.clone sigchld)).1.value = processId →
        k.find (k.other e (.clone sigchld)).2 processId wexited = (.changed c user, e₂) →
        c.line = some text →
        Yields k.withConsole.answer (e, out) (runProgram w argv) () (e₂, out ++ text) := by
  constructor
  · intro options h ε k e
    exact ⟨yields_sysWait4_rv64 k processId options e,
      fun a e' => (sysWait4_same_iff hpos hint options).mpr h ε k e e' a⟩
  · intro ε k argv e
    constructor
    · intro e'
      rw [yields_runProgram, yields_runProgram]
    · intro w e₂ out text user c hclone hfind hline
      exact runProgram_prints w argv hpos hclone hfind hline

/-- A kernel with one child, 7, that has exited with 3. -/
def oneChild : Processes Unit where
  find _ _ _ := (.changed (.exited 3) 0, ())
  other _ _ := (⟨7, [], []⟩, ())
  pid _ _ := by decide

theorem sysWait4_rv32_refines_seven :
    Yields oneChild.withConsole.answer ((), []) (runProgram .rv32 [ascii "/bin/a"]) ()
      ((), ascii "exit 3\n") :=
  ((sysWait4_rv32_refines (by decide : 0 < 7) (by decide)).2 Unit oneChild _ ()).2 .rv32 () [] _ 0
    (.exited 3) rfl rfl rfl

/-- With `WEXITED` in the options `wait4` refuses, and `waitid` does not. -/
theorem sysWait4_rv32_takes_wexited :
    Yields oneChild.answer () (sysWait4 .rv32 7 4) (7, some 0x300) () ∧
      Yields oneChild.answer () (sysWait4 .rv64 7 4) (-22, none) () ∧
      ¬ Yields oneChild.answer () (sysWait4 .rv64 7 4) (7, some 0x300) () := by
  have h32 := yields_sysWait4_rv32 oneChild 4 () (by decide : 0 < 7) (by decide)
  have h64 := yields_sysWait4_rv64 oneChild 7 4 ()
  refine ⟨h32, h64, ?_⟩
  intro h
  exact absurd (h64.unique h).1 (by decide)

end LinuxBuild.Payload
