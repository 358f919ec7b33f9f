import LinuxBuild.Descriptors
import LinuxBuild.Ports

/-!
# What a command line may do

Most system calls of the payload read, print, wait for input, or look at what is
open already. The others change a directory or a file, reach a host, start or
collect a process or stop the machine, and each of them is asked for by the line
typed last.
-/

namespace LinuxBuild.Payload

open Interaction

/-- The call reads, closes, waits for input, asks about the system, or writes to
the console. -/
def Call.isPlain : Call → Bool
  | .getcwd _ | .close _ | .getdents64 _ _ | .read _ _ | .recvfrom _ _ | .ppoll _ _ | .uname
  | .sysinfo => true
  | .write fd _ => fd = 1
  | _ => false

/-- The calls of `mount_defaults`. -/
def defaultMounts : List Call :=
  [.mkdirat (ascii "/proc") 0o755, .mkdirat (ascii "/sys") 0o755, .mkdirat (ascii "/dev") 0o755,
    .mount (ascii "proc") (ascii "/proc") (ascii "proc"),
    .mount (ascii "sysfs") (ascii "/sys") (ascii "sysfs"),
    .mount (ascii "devtmpfs") (ascii "/dev") (ascii "devtmpfs")]

/-- The calls that start a program, in the child give up on it, and in the shell
collect it. -/
inductive Spawns (argv : List Bytes) : Call → Prop where
  | clone : Spawns argv (.clone sigchld)
  | execve : Spawns argv (.execve (argv.headD []) argv)
  | exit : Spawns argv (.exit 127)
  | wait4 {processId : Nat} : Spawns argv (.wait4 processId 0)
  | waitid {processId : Nat} : Spawns argv (.waitid 1 processId 4)

/-- The port of a socket address. -/
def networkPort (text : Bytes) : Nat := hostToNetwork16 (decimal text % 2 ^ 16)

/-- What each command line may do beyond plain calls. -/
inductive Permits (w : Word) : List Bytes → Call → Prop where
  | cd {args : List Bytes} : Permits w (ascii "cd" :: args) (.chdir (args.headD (ascii "/")))
  | ls {args : List Bytes} : Permits w (ascii "ls" :: args)
      (.openat (args.headD (ascii ".")) (oRdonly ||| oDirectory) 0)
  | cat {args : List Bytes} {path : Bytes} (hpath : path ∈ args) :
      Permits w (ascii "cat" :: args) (.openat path oRdonly 0)
  | cpSource {source dest : Bytes} :
      Permits w [ascii "cp", source, dest] (.openat source oRdonly 0)
  | cpDest {source dest : Bytes} :
      Permits w [ascii "cp", source, dest] (.openat dest (oWronly ||| oCreat ||| oTrunc) 0o644)
  | cpWrite {source dest : Bytes} {fd : Nat} {bytes : Bytes} :
      Permits w [ascii "cp", source, dest] (.write fd bytes)
  | touch {args : List Bytes} {path : Bytes} (hpath : path ∈ args) :
      Permits w (ascii "touch" :: args) (.openat path (oWronly ||| oCreat) 0o644)
  | mkdir {path : Bytes} : Permits w [ascii "mkdir", path] (.mkdirat path 0o755)
  | rm {path : Bytes} : Permits w [ascii "rm", path] (.unlinkat path 0)
  | rmdir {path : Bytes} : Permits w [ascii "rmdir", path] (.unlinkat path atRemovedir)
  | mountDefaults {c : Call} (hc : c ∈ defaultMounts) : Permits w [ascii "mount"] c
  | mount {type target : Bytes} {rest : List Bytes} :
      Permits w (ascii "mount" :: type :: target :: rest) (.mount (rest.headD type) target type)
  | sync {args : List Bytes} : Permits w (ascii "sync" :: args) .sync
  | sleep {text : Bytes} {seconds : Nat} (hseconds : parseUnsigned w text = some seconds) :
      Permits w [ascii "sleep", text] (.nanosleep (w.toLong seconds))
  | ifconfig {args : List Bytes} :
      Permits w (ascii "ifconfig" :: args) (.socket afInet sockDgram 0)
  | ifconfigAsk {args : List Bytes} {fd request : Nat}
      (hrequest : request ∈ [siocgifflags, siocgifaddr, siocgifnetmask]) :
      Permits w (ascii "ifconfig" :: args)
        (.ioctl fd request (cstrCopy 16 (args.headD (ascii "eth0"))))
  | pingSocket {host : Bytes} (hhost : (parseIpv4 host).isSome) :
      Permits w [ascii "ping", host] (.socket afInet sockRaw ipprotoIcmp)
  | ping {host : Bytes} {address fd n : Nat} (hhost : parseIpv4 host = some address)
      (hn : n ∈ [1, 2, 3]) :
      Permits w [ascii "ping", host] (.sendto fd (echoRequest n).bytes ⟨afInet, 0, address⟩)
  | ncSocket {host text : Bytes} (hport : IsPort text) :
      Permits w [ascii "nc", host, text] (.socket afInet sockStream 0)
  | ncListen {text : Bytes} {fd : Nat} (hport : IsPort text) :
      Permits w [ascii "nc", ascii "-l", text] (.bind fd ⟨afInet, networkPort text, 0⟩)
  | ncReuse {text : Bytes} {fd : Nat} (hport : IsPort text) :
      Permits w [ascii "nc", ascii "-l", text] (.setsockopt fd solSocket soReuseaddr 1)
  | ncBacklog {text : Bytes} {fd : Nat} (hport : IsPort text) :
      Permits w [ascii "nc", ascii "-l", text] (.listen fd 1)
  | ncAccept {text : Bytes} {fd : Nat} (hport : IsPort text) :
      Permits w [ascii "nc", ascii "-l", text] (.accept fd)
  | ncConnect {host text : Bytes} {address fd : Nat} (hport : IsPort text)
      (hhost : parseIpv4 host = some address) :
      Permits w [ascii "nc", host, text] (.connect fd ⟨afInet, networkPort text, address⟩)
  | ncWrite {host text : Bytes} {fd : Nat} {bytes : Bytes} (hport : IsPort text) :
      Permits w [ascii "nc", host, text] (.write fd bytes)
  | fetchSocket {host text remote path : Bytes} (hport : IsPort text) :
      Permits w [ascii "fetch", host, text, remote, path] (.socket afInet sockStream 0)
  | fetchConnect {host text remote path : Bytes} {address fd : Nat} (hport : IsPort text)
      (hhost : parseIpv4 host = some address) :
      Permits w [ascii "fetch", host, text, remote, path]
        (.connect fd ⟨afInet, networkPort text, address⟩)
  | fetchOpen {host text remote path : Bytes} :
      Permits w [ascii "fetch", host, text, remote, path]
        (.openat path (oWronly ||| oCreat ||| oTrunc) 0o755)
  | fetchMode {host text remote path : Bytes} {fd : Nat} :
      Permits w [ascii "fetch", host, text, remote, path] (.fchmod fd 0o755)
  | fetchWrite {host text remote path : Bytes} {fd : Nat} {bytes : Bytes} (hport : IsPort text) :
      Permits w [ascii "fetch", host, text, remote, path] (.write fd bytes)
  | fetchRemove {host text remote path : Bytes} :
      Permits w [ascii "fetch", host, text, remote, path] (.unlinkat path 0)
  | run {path : Bytes} {args : List Bytes} {c : Call} (hc : Spawns (path :: args) c) :
      Permits w (ascii "run" :: path :: args) c
  | program {path : Bytes} {args : List Bytes} {c : Call} (hslash : '/'.toUInt8 ∈ path)
      (hc : Spawns (path :: args) c) : Permits w (path :: args) c
  | reboot {args : List Bytes} : Permits w (ascii "reboot" :: args) (.reboot rebootRestart)
  | poweroff {args : List Bytes} : Permits w (ascii "poweroff" :: args) (.reboot rebootPowerOff)

/-- A plain call, or one the line permits. -/
def Authorized (w : Word) (argv : List Bytes) (c : Call) : Prop :=
  c.isPlain = true ∨ Permits w argv c

section

variable {P : Call → Prop}

theorem calls_openat {path : Bytes} {flags mode : Nat} (h : P (.openat path flags mode)) :
    CallsOnly P (sysOpenat path flags mode) := .bind (.ask h) fun _ => .ret

theorem calls_socket {domain type protocol : Nat} (h : P (.socket domain type protocol)) :
    CallsOnly P (sysSocket domain type protocol) := .bind (.ask h) fun _ => .ret

end

/-! ## Network -/

section Network

variable {P : Call → Prop} (hP : ∀ c, c.isPlain = true → P c)

include hP

theorem plain_writes (bytes : Bytes) : P (.write 1 bytes) := hP _ rfl

theorem plain_ask {c : Call} (hc : c.isPlain = true) : CallsOnly P (.ask c : Sys Reply) :=
  .ask (hP c hc)

theorem plain_close (fd : Nat) : CallsOnly P (sysClose fd) :=
  .bind (plain_ask hP rfl) fun _ => .ret

theorem authorized_relayOn {socket : Nat} (hwrite : ∀ fd bytes, P (.write fd bytes)) :
    CallsOnly P (relayOn socket) :=
  calls_relayOn (plain_writes hP) (hP _ rfl) (fun _ _ _ => hP _ rfl) (hwrite socket)

theorem authorized_acceptOn {listener : Nat} (port : Nat) (haccept : P (.accept listener))
    (hwrite : ∀ fd bytes, P (.write fd bytes)) : CallsOnly P (acceptOn listener port) := by
  apply CallsOnly.bind (calls_putsRaw (plain_writes hP) _)
  intro _
  apply CallsOnly.bind (calls_printUnsigned (plain_writes hP) _)
  intro _
  apply CallsOnly.bind (calls_putsRaw (plain_writes hP) _)
  intro _
  apply CallsOnly.bind (.bind (.ask haccept) fun _ => .ret)
  intro accepted
  cases accepted with
  | none => exact .bind (calls_printError (plain_writes hP) _ _) fun _ => plain_close hP _
  | some connection =>
    apply CallsOnly.bind (calls_putLine (plain_writes hP) _)
    intro _
    apply CallsOnly.bind (authorized_relayOn hP hwrite)
    intro _
    exact .bind (plain_close hP _) fun _ => plain_close hP _

theorem authorized_ncListen {port : Nat} (hsocket : P (.socket afInet sockStream 0))
    (hreuse : ∀ fd, P (.setsockopt fd solSocket soReuseaddr 1))
    (hbind : ∀ fd, P (.bind fd ⟨afInet, hostToNetwork16 (port % 2 ^ 16), 0⟩))
    (hlisten : ∀ fd, P (.listen fd 1)) (haccept : ∀ fd, P (.accept fd))
    (hwrite : ∀ fd bytes, P (.write fd bytes)) : CallsOnly P (ncListen port) := by
  apply CallsOnly.bind (calls_socket hsocket)
  intro listener
  cases listener with
  | none => exact calls_printError (plain_writes hP) _ _
  | some listener =>
    have hfailed : CallsOnly P (do ncError "listen"; sysClose listener) :=
      .bind (calls_printError (plain_writes hP) _ _) fun _ => plain_close hP _
    apply CallsOnly.bind (calls_status (hreuse listener))
    intro _
    refine .bind (calls_status (hbind listener)) fun bound => .ite hfailed ?_
    refine .bind (calls_status (hlisten listener)) fun listening => .ite hfailed ?_
    exact authorized_acceptOn hP _ (haccept listener) hwrite

theorem authorized_ncClient {host : Bytes} {port : Nat} (hsocket : P (.socket afInet sockStream 0))
    (hconnect : ∀ fd address, parseIpv4 host = some address →
      P (.connect fd ⟨afInet, hostToNetwork16 (port % 2 ^ 16), address⟩))
    (hwrite : ∀ fd bytes, P (.write fd bytes)) : CallsOnly P (ncClient host port) := by
  rw [ncClient]
  split
  · exact calls_putLine (plain_writes hP) _
  · rename_i address haddress
    apply CallsOnly.bind (calls_socket hsocket)
    intro socket
    cases socket with
    | none => exact calls_printError (plain_writes hP) _ _
    | some fd =>
      refine .bind (calls_status (hconnect fd _ haddress)) fun connected => .ite ?_ ?_
      · exact .bind (calls_printError (plain_writes hP) _ _) fun _ => plain_close hP _
      · apply CallsOnly.bind (calls_putsRaw (plain_writes hP) _)
        intro _
        apply CallsOnly.bind (calls_printIpv4 (plain_writes hP) _)
        intro _
        apply CallsOnly.bind (calls_putsRaw (plain_writes hP) _)
        intro _
        apply CallsOnly.bind (calls_printUnsigned (plain_writes hP) _)
        intro _
        apply CallsOnly.bind (calls_putsRaw (plain_writes hP) _)
        intro _
        exact .bind (authorized_relayOn hP hwrite) fun _ => plain_close hP _

theorem authorized_connectTcp {host : Bytes} {port : Nat}
    (hsocket : P (.socket afInet sockStream 0))
    (hconnect : ∀ fd address, parseIpv4 host = some address →
      P (.connect fd ⟨afInet, hostToNetwork16 (port % 2 ^ 16), address⟩)) :
    CallsOnly P (connectTcp host port) := by
  rw [connectTcp]
  split
  · exact .bind (calls_putLine (plain_writes hP) _) fun _ => .ret
  · rename_i address haddress
    apply CallsOnly.bind (calls_socket hsocket)
    intro socket
    cases socket with
    | none => exact .bind (calls_printError (plain_writes hP) _ _) fun _ => .ret
    | some fd =>
      refine .bind (calls_status (hconnect fd _ haddress)) fun connected => .ite ?_ .ret
      apply CallsOnly.bind (plain_close hP _)
      intro _
      exact .bind (calls_printError (plain_writes hP) _ _) fun _ => .ret

theorem authorized_fetchBody {path : Bytes} (expected : Option Nat) (socket output : Nat)
    (hwrite : ∀ fd bytes, P (.write fd bytes)) (hremove : P (.unlinkat path 0)) :
    CallsOnly P (fetchBody expected socket output path) := by
  apply CallsOnly.bind (calls_copyBody (fun _ => hP _ rfl) (hwrite output))
  intro result
  apply CallsOnly.bind (plain_close hP _)
  intro _
  refine .bind (plain_close hP _) fun _ => .ite ?_ ?_
  · exact .bind (calls_status hremove) fun _ => calls_printError (plain_writes hP) _ _
  · apply CallsOnly.bind (calls_putsRaw (plain_writes hP) _)
    intro _
    apply CallsOnly.bind (calls_printU64 (plain_writes hP) _)
    intro _
    exact .bind (calls_putsRaw (plain_writes hP) _) fun _ => calls_putLine (plain_writes hP) _

theorem authorized_fetchInto {path : Bytes} (expected : Option Nat) (socket : Nat)
    (hopen : P (.openat path (oWronly ||| oCreat ||| oTrunc) 0o755))
    (hmode : ∀ fd, P (.fchmod fd 0o755)) (hwrite : ∀ fd bytes, P (.write fd bytes))
    (hremove : P (.unlinkat path 0)) :
    CallsOnly P (fetchInto expected socket path) := by
  apply CallsOnly.bind (calls_openat hopen)
  intro output
  cases output with
  | none => exact .bind (calls_printError (plain_writes hP) _ _) fun _ => plain_close hP _
  | some output =>
    refine .bind (calls_status (hmode output)) fun changed => .ite ?_ ?_
    · apply CallsOnly.bind (calls_printError (plain_writes hP) _ _)
      intro _
      apply CallsOnly.bind (plain_close hP _)
      intro _
      exact .bind (calls_status hremove) fun _ => plain_close hP _
    · exact authorized_fetchBody hP _ _ _ hwrite hremove

theorem authorized_fetchFrom {path : Bytes} (w : Word) (socket : Nat) (host remote : Bytes)
    (hopen : P (.openat path (oWronly ||| oCreat ||| oTrunc) 0o755))
    (hmode : ∀ fd, P (.fchmod fd 0o755)) (hwrite : ∀ fd bytes, P (.write fd bytes))
    (hremove : P (.unlinkat path 0)) :
    CallsOnly P (fetchFrom w socket host remote path) := by
  have hsay : ∀ text, CallsOnly P (do putLine text; sysClose socket) :=
    fun text => .bind (calls_putLine (plain_writes hP) text) fun _ => plain_close hP socket
  refine .bind (calls_writeEach (hwrite socket) _) fun sent => .ite (hsay _) ?_
  apply CallsOnly.bind (calls_readResponseHeader (fun _ => hP _ rfl) _)
  intro header
  cases header with
  | none => exact hsay _
  | some header =>
    dsimp only
    split
    · exact hsay _
    · exact authorized_fetchInto hP _ _ hopen hmode hwrite hremove
    · exact authorized_fetchInto hP _ _ hopen hmode hwrite hremove

theorem authorized_showAddress {fd request : Nat} {interface : Bytes} (label : Bytes)
    (hask : P (.ioctl fd request (cstrCopy 16 interface))) :
    CallsOnly P (showAddress fd request interface label) := by
  refine .bind (.ask hask) fun r => .ite ?_ .ret
  apply CallsOnly.bind (calls_putsRaw (plain_writes hP) _)
  intro _
  exact .bind (calls_printIpv4 (plain_writes hP) _) fun _ => calls_putsRaw (plain_writes hP) _

theorem authorized_ifconfigOn {fd : Nat} {interface : Bytes}
    (hask : ∀ request ∈ [siocgifflags, siocgifaddr, siocgifnetmask],
      P (.ioctl fd request (cstrCopy 16 interface))) : CallsOnly P (ifconfigOn fd interface) := by
  apply CallsOnly.bind (calls_putsRaw (plain_writes hP) _)
  intro _
  refine .bind (.ask (hask _ (by simp))) fun r => .ite ?_ ?_
  · exact .bind (calls_putsRaw (plain_writes hP) _) fun _ => plain_close hP _
  · apply CallsOnly.bind (calls_putsRaw (plain_writes hP) _)
    intro _
    apply CallsOnly.bind (.ite (calls_putsRaw (plain_writes hP) _) .ret)
    intro _
    apply CallsOnly.bind (.ite (calls_putsRaw (plain_writes hP) _) .ret)
    intro _
    apply CallsOnly.bind (calls_putsRaw (plain_writes hP) _)
    intro _
    apply CallsOnly.bind (authorized_showAddress hP _ (hask _ (by simp)))
    intro _
    exact .bind (authorized_showAddress hP _ (hask _ (by simp))) fun _ => plain_close hP _

theorem authorized_pingTurn {fd n : Nat} {destination : SockaddrIn}
    (hsend : P (.sendto fd (echoRequest n).bytes destination)) :
    CallsOnly P (pingTurn fd destination n) := by
  refine .bind (calls_status hsend) fun sent => .ite ?_ ?_
  · exact .bind (calls_putLine (plain_writes hP) _) fun _ => .ret
  · refine .bind (calls_status (hP _ rfl)) fun ready => .ite ?_ ?_
    · exact .bind (calls_timeoutLine (plain_writes hP) _) fun _ => .ret
    · refine .bind (plain_ask hP rfl) fun r => .ite ?_ ?_
      · exact .bind (calls_replyLine (plain_writes hP) _ _) fun _ => .ret
      · exact .bind (calls_putLine (plain_writes hP) _) fun _ => .ret

theorem authorized_pingTurns {fd : Nat} {destination : SockaddrIn} {ns : List Nat}
    (hsend : ∀ n ∈ ns, P (.sendto fd (echoRequest n).bytes destination)) (received : Nat) :
    CallsOnly P (pingTurns fd destination ns received) := by
  induction ns generalizing received with
  | nil => exact .ret
  | cons n ns ih =>
    refine .bind (authorized_pingTurn hP (hsend n List.mem_cons_self)) fun counted => ?_
    exact ih (fun m hm => hsend m (List.mem_cons_of_mem _ hm)) _

theorem authorized_runProgram {w : Word} {argv : List Bytes} (hspawn : ∀ c, Spawns argv c → P c) :
    CallsOnly P (runProgram w argv) := by
  refine .bind (.ask (hspawn _ .clone)) fun r => .ite (calls_printError (plain_writes hP) _ _) ?_
  refine .ite ?_ ?_
  · apply CallsOnly.bind (calls_status (hspawn _ .execve))
    intro _
    apply CallsOnly.bind (calls_printError (plain_writes hP) _ _)
    intro _
    apply CallsOnly.bind (.ask (hspawn _ .exit))
    intro _
    exact .loop fun _ => .bind .ret fun _ => .ret
  · refine .bind ?_ fun result => .ite (calls_printError (plain_writes hP) _ _) ?_
    · cases w with
      | rv64 => exact .bind (.ask (hspawn _ .wait4)) fun _ => .ret
      | rv32 =>
        refine .bind (.ask (hspawn _ .waitid)) fun r => .ite .ret ?_
        cases waitStatus r with
        | none => exact .ret
        | some s => exact .ret
    · refine .ite ?_ ?_
      · apply CallsOnly.bind (calls_putsRaw (plain_writes hP) _)
        intro _
        exact .bind (calls_printUnsigned (plain_writes hP) _) fun _ =>
          calls_putsRaw (plain_writes hP) _
      · apply CallsOnly.bind (calls_putsRaw (plain_writes hP) _)
        intro _
        exact .bind (calls_printUnsigned (plain_writes hP) _) fun _ =>
          calls_putsRaw (plain_writes hP) _

end Network

/-! ## The command table -/

section Commands

variable {w : Word}

theorem authorized_plain (argv : List Bytes) : ∀ c, c.isPlain = true → Authorized w argv c :=
  fun _ => .inl

theorem authorized_write (argv : List Bytes) (bytes : Bytes) : Authorized w argv (.write 1 bytes) :=
  .inl rfl

/-- A call that is permitted, reported when it fails. -/
theorem authorized_report {argv : List Bytes} {c : Call} (command : Bytes) (target : Option Bytes)
    (hc : Authorized w argv c) : CallsOnly (Authorized w argv) (do
      let result ← status c
      if result < 0 then printError command target else pure ()) :=
  .bind (calls_status hc) fun _ => .ite (calls_printError (authorized_write argv) _ _) .ret

theorem authorized_mountDefaults {P : Call → Prop} (h : ∀ c ∈ defaultMounts, P c) :
    CallsOnly P mountDefaults := by
  have hcall : ∀ c ∈ defaultMounts, CallsOnly P (status c) := fun c hc => calls_status (h c hc)
  apply CallsOnly.bind (hcall _ (by decide))
  intro _
  apply CallsOnly.bind (hcall _ (by decide))
  intro _
  apply CallsOnly.bind (hcall _ (by decide))
  intro _
  apply CallsOnly.bind (hcall _ (by decide))
  intro _
  apply CallsOnly.bind (hcall _ (by decide))
  intro _
  exact .bind (hcall _ (by decide)) fun _ => .ret

theorem authorized_cmdHelp (argv : List Bytes) : CallsOnly (Authorized w argv) (cmdHelp argv) := by
  apply CallsOnly.bind (calls_putLine (authorized_write argv) _)
  intro _
  exact .bind (calls_putLine (authorized_write argv) _) fun _ =>
    calls_putLine (authorized_write argv) _

theorem authorized_cmdEcho (argv : List Bytes) : CallsOnly (Authorized w argv) (cmdEcho argv) := by
  refine .bind ?_ fun _ => calls_putsRaw (authorized_write argv) _
  split
  · exact .ret
  · apply CallsOnly.bind (calls_putsRaw (authorized_write argv) _)
    intro _
    exact .forEach fun _ => .bind (calls_putsRaw (authorized_write argv) _) fun _ =>
      calls_putsRaw (authorized_write argv) _

theorem authorized_cmdPwd (argv : List Bytes) : CallsOnly (Authorized w argv) (cmdPwd argv) :=
  .bind (.ask (.inl rfl)) fun _ => .ite (calls_printError (authorized_write argv) _ _)
    (calls_putLine (authorized_write argv) _)

theorem authorized_cmdCd (args : List Bytes) :
    CallsOnly (Authorized w (ascii "cd" :: args)) (cmdCd (ascii "cd" :: args)) := by
  have hpath : (ascii "cd" :: args).getD 1 (ascii "/") = args.headD (ascii "/") := by
    cases args <;> rfl
  rw [cmdCd, hpath]
  exact authorized_report _ _ (.inr .cd)

theorem authorized_lsTurn {argv : List Bytes} (fd : Nat) (path : Bytes) :
    CallsOnly (Authorized w argv) (lsTurn fd path ()) := by
  refine .bind (.ask (.inl rfl)) fun r => .ite ?_ ?_
  · exact .bind (.ite (calls_printError (authorized_write argv) _ _) .ret) fun _ => .ret
  · refine .bind (.loop fun offset => ?_) fun _ => .ret
    rw [entryTurn]
    refine .ite ?_ .ret
    apply CallsOnly.bind (calls_putsRaw (authorized_write argv) _)
    intro _
    apply CallsOnly.bind (.ite (calls_putsRaw (authorized_write argv) _) .ret)
    intro _
    exact .bind (calls_putsRaw (authorized_write argv) _) fun _ => .ret

theorem authorized_cmdLs (args : List Bytes) :
    CallsOnly (Authorized w (ascii "ls" :: args)) (cmdLs (ascii "ls" :: args)) := by
  have hpath : (ascii "ls" :: args).getD 1 (ascii ".") = args.headD (ascii ".") := by
    cases args <;> rfl
  rw [cmdLs, hpath]
  refine .bind (calls_openat (.inr .ls)) fun opened => ?_
  cases opened with
  | none => exact calls_printError (authorized_write _) _ _
  | some fd =>
    apply CallsOnly.bind (.loop fun _ => authorized_lsTurn fd _)
    intro _
    exact .bind (calls_putsRaw (authorized_write _) _) fun _ => plain_close (authorized_plain _) fd

/-- A program for each of the arguments. -/
theorem authorized_forEach {P : Call → Prop} {args : List Bytes} {f : Bytes → Sys Unit}
    (h : ∀ arg ∈ args, CallsOnly P (f arg)) : CallsOnly P (.forEach args f) := by
  induction args with
  | nil => exact .ret
  | cons arg args ih =>
    exact .bind (h arg List.mem_cons_self) fun _ => ih fun a ha => h a (List.mem_cons_of_mem _ ha)

theorem authorized_cmdCat (args : List Bytes) :
    CallsOnly (Authorized w (ascii "cat" :: args)) (cmdCat (ascii "cat" :: args)) := by
  refine .ite (calls_putLine (authorized_write _) _) (authorized_forEach fun path hpath => ?_)
  refine .bind (calls_openat (.inr (.cat hpath))) fun opened => ?_
  cases opened with
  | none => exact calls_printError (authorized_write _) _ _
  | some fd =>
    refine .bind (calls_copyLoop (fun _ => .inl rfl) fun _ => .inl rfl) fun ended => ?_
    exact .bind (.ite (calls_printError (authorized_write _) _ _) .ret) fun _ =>
      plain_close (authorized_plain _) fd

theorem authorized_cpOn (source destination : Nat) (sourcePath destPath : Bytes) :
    CallsOnly (Authorized w [ascii "cp", sourcePath, destPath])
      (cpOn source destination sourcePath destPath) := by
  refine .bind (calls_copyLoop (fun _ => .inl rfl) fun _ => .inr .cpWrite) fun ended => ?_
  refine .bind ?_ fun _ => .bind (plain_close (authorized_plain _) _) fun _ =>
    plain_close (authorized_plain _) _
  unfold cpReport
  split
  · exact .ret
  · exact calls_printError (authorized_write _) _ _
  · exact calls_printError (authorized_write _) _ _

theorem authorized_cmdCp (args : List Bytes) :
    CallsOnly (Authorized w (ascii "cp" :: args)) (cmdCp (ascii "cp" :: args)) := by
  unfold cmdCp
  split
  · rename_i sourcePath destPath heq
    obtain ⟨-, rfl⟩ := List.cons.inj heq
    refine .bind (calls_openat (.inr .cpSource)) fun opened => ?_
    cases opened with
    | none => exact calls_printError (authorized_write _) _ _
    | some source =>
      refine .bind (calls_openat (.inr .cpDest)) fun opened => ?_
      cases opened with
      | none =>
        exact .bind (calls_printError (authorized_write _) _ _) fun _ =>
          plain_close (authorized_plain _) _
      | some destination => exact authorized_cpOn _ _ _ _
  · exact calls_putLine (authorized_write _) _

theorem authorized_cmdTouch (args : List Bytes) :
    CallsOnly (Authorized w (ascii "touch" :: args)) (cmdTouch (ascii "touch" :: args)) := by
  refine .ite (calls_putLine (authorized_write _) _) (authorized_forEach fun path hpath => ?_)
  refine .bind (calls_openat (.inr (.touch hpath))) fun opened => ?_
  cases opened with
  | none => exact calls_printError (authorized_write _) _ _
  | some fd => exact plain_close (authorized_plain _) fd

theorem authorized_onArgument {name command : Bytes} {args : List Bytes} {c : Bytes → Call}
    (hc : ∀ path, args = [path] → Permits w (name :: args) (c path)) :
    CallsOnly (Authorized w (name :: args)) (onArgument command (name :: args) c) := by
  unfold onArgument
  split
  · rename_i path heq
    obtain ⟨-, rfl⟩ := List.cons.inj heq
    exact authorized_report _ _ (.inr (hc path rfl))
  · exact calls_printError (authorized_write _) _ _

theorem authorized_cmdMkdir (args : List Bytes) :
    CallsOnly (Authorized w (ascii "mkdir" :: args)) (cmdMkdir (ascii "mkdir" :: args)) := by
  apply authorized_onArgument
  rintro path rfl
  exact .mkdir

theorem authorized_cmdRemove_rm (args : List Bytes) :
    CallsOnly (Authorized w (ascii "rm" :: args)) (cmdRemove (ascii "rm" :: args)) := by
  apply authorized_onArgument
  rintro path rfl
  have hrm : ascii "rm" ≠ ascii "rmdir" := by decide
  exact if_neg hrm ▸ .rm

theorem authorized_cmdRemove_rmdir (args : List Bytes) :
    CallsOnly (Authorized w (ascii "rmdir" :: args)) (cmdRemove (ascii "rmdir" :: args)) := by
  apply authorized_onArgument
  rintro path rfl
  exact .rmdir

theorem authorized_cmdMount (args : List Bytes) :
    CallsOnly (Authorized w (ascii "mount" :: args)) (cmdMount (ascii "mount" :: args)) := by
  unfold cmdMount
  split
  · rename_i heq
    obtain ⟨-, rfl⟩ := List.cons.inj heq
    refine .bind (authorized_mountDefaults fun c hc => .inr (.mountDefaults hc)) fun _ => ?_
    exact calls_putLine (authorized_write _) _
  · rename_i heq
    obtain ⟨-, rfl⟩ := List.cons.inj heq
    exact authorized_report _ _ (.inr .mount)
  · exact calls_putLine (authorized_write _) _

theorem authorized_cmdSync (args : List Bytes) :
    CallsOnly (Authorized w (ascii "sync" :: args)) (cmdSync (ascii "sync" :: args)) :=
  .bind (.ask (.inr .sync)) fun _ => .ret

theorem authorized_cmdUname (argv : List Bytes) :
    CallsOnly (Authorized w argv) (cmdUname argv) := by
  have hline : ∀ text, CallsOnly (Authorized w argv) (putLine text) :=
    calls_putLine (authorized_write argv)
  refine .bind (.ask (.inl rfl)) fun r => .ite (calls_printError (authorized_write argv) _ _) ?_
  split
  · exact hline _
  · refine .ite (.bind (.forEach fun _ => ?_) fun _ => hline _) (hline _)
    exact .bind (calls_putsRaw (authorized_write _) _) fun _ => calls_putsRaw (authorized_write _) _
  · exact hline _

theorem authorized_getSysinfo (argv : List Bytes) : CallsOnly (Authorized w argv) getSysinfo := by
  refine .bind (.ask (.inl rfl)) fun r => .ite ?_ .ret
  exact .bind (calls_printError (authorized_write argv) _ _) fun _ => .ret

theorem authorized_cmdUptime (argv : List Bytes) :
    CallsOnly (Authorized w argv) (cmdUptime w argv) := by
  have hputs : ∀ text, CallsOnly (Authorized w argv) (putsRaw text) :=
    calls_putsRaw (authorized_write argv)
  have hprint : ∀ value, CallsOnly (Authorized w argv) (printUnsigned value) :=
    calls_printUnsigned (authorized_write argv)
  refine .bind (authorized_getSysinfo argv) fun info => ?_
  cases info with
  | none => exact .ret
  | some r =>
    apply CallsOnly.bind (hputs _)
    intro _
    apply CallsOnly.bind (hprint _)
    intro _
    apply CallsOnly.bind (hputs _)
    intro _
    apply CallsOnly.bind (hprint _)
    intro _
    apply CallsOnly.bind (hputs _)
    intro _
    apply CallsOnly.bind (hprint _)
    intro _
    apply CallsOnly.bind (hputs _)
    intro _
    exact .bind (hprint _) fun _ => calls_putLine (authorized_write argv) _

theorem authorized_cmdFree (argv : List Bytes) :
    CallsOnly (Authorized w argv) (cmdFree w argv) := by
  have hline : ∀ label value unit,
      CallsOnly (Authorized w argv) (printMemoryLine label value unit) :=
    fun _ _ _ => .bind (calls_putsRaw (authorized_write argv) _) fun _ =>
      .bind (calls_printU64 (authorized_write argv) _) fun _ =>
        calls_putLine (authorized_write argv) _
  refine .bind (authorized_getSysinfo argv) fun info => ?_
  cases info with
  | none => exact .ret
  | some r =>
    apply CallsOnly.bind (hline _ _ _)
    intro _
    apply CallsOnly.bind (hline _ _ _)
    intro _
    exact .bind (hline _ _ _) fun _ => hline _ _ _

theorem authorized_cmdSleep (args : List Bytes) :
    CallsOnly (Authorized w (ascii "sleep" :: args)) (cmdSleep w (ascii "sleep" :: args)) := by
  unfold cmdSleep
  split
  · rename_i text heq
    obtain ⟨-, rfl⟩ := List.cons.inj heq
    split
    · exact calls_putLine (authorized_write _) _
    · rename_i seconds hseconds
      exact authorized_report _ _ (.inr (.sleep hseconds))
  · exact calls_putLine (authorized_write _) _

theorem authorized_cmdIfconfig (args : List Bytes) :
    CallsOnly (Authorized w (ascii "ifconfig" :: args))
      (cmdIfconfig (ascii "ifconfig" :: args)) := by
  have hinterface : (ascii "ifconfig" :: args).getD 1 (ascii "eth0") = args.headD (ascii "eth0") := by
    cases args <;> rfl
  rw [cmdIfconfig, hinterface]
  refine .bind (calls_socket (.inr .ifconfig)) fun socket => ?_
  cases socket with
  | none => exact calls_printError (authorized_write _) _ _
  | some fd =>
    exact authorized_ifconfigOn (authorized_plain _) fun _ hrequest => .inr (.ifconfigAsk hrequest)

theorem authorized_cmdPing (args : List Bytes) :
    CallsOnly (Authorized w (ascii "ping" :: args)) (cmdPing (ascii "ping" :: args)) := by
  unfold cmdPing
  split
  · rename_i host heq
    obtain ⟨-, rfl⟩ := List.cons.inj heq
    split
    · exact calls_putLine (authorized_write _) _
    · rename_i address haddress
      have hsome : (parseIpv4 host).isSome := by rw [haddress]; rfl
      refine .bind (calls_socket (.inr (.pingSocket hsome))) fun socket => ?_
      cases socket with
      | none => exact calls_printError (authorized_write _) _ _
      | some fd =>
        apply CallsOnly.bind (calls_putsRaw (authorized_write _) _)
        intro _
        apply CallsOnly.bind (calls_putLine (authorized_write _) _)
        intro _
        refine .bind (authorized_pingTurns (authorized_plain _)
          (fun n hn => .inr (.ping haddress hn)) 0) fun received => ?_
        apply CallsOnly.bind (calls_printUnsigned (authorized_write _) _)
        intro _
        exact .bind (calls_putLine (authorized_write _) _) fun _ =>
          plain_close (authorized_plain _) fd
  · exact calls_putLine (authorized_write _) _

theorem authorized_cmdNc (args : List Bytes) :
    CallsOnly (Authorized w (ascii "nc" :: args)) (cmdNc w (ascii "nc" :: args)) := by
  by_cases hshape : ∃ host text, args = [host, text]
  · obtain ⟨host, text, rfl⟩ := hshape
    rw [cmdNc_eq]
    by_cases hport : IsPort text
    · rw [if_pos hport, if_pos hport]
      split
      · rename_i hlisten
        subst hlisten
        exact authorized_ncListen (authorized_plain _) (.inr (.ncSocket hport))
          (fun _ => .inr (.ncReuse hport)) (fun _ => .inr (.ncListen hport))
          (fun _ => .inr (.ncBacklog hport)) (fun _ => .inr (.ncAccept hport))
          fun _ _ => .inr (.ncWrite hport)
      · exact authorized_ncClient (authorized_plain _) (.inr (.ncSocket hport))
          (fun _ _ hhost => .inr (.ncConnect hport hhost)) fun _ _ => .inr (.ncWrite hport)
    · rw [if_neg hport, if_neg hport]
      exact .ite (calls_putLine (authorized_write _) _) (calls_putLine (authorized_write _) _)
  · unfold cmdNc
    split
    · rename_i host text heq
      exact absurd ⟨host, text, (List.cons.inj heq).2⟩ hshape
    · exact calls_putLine (authorized_write _) _

theorem authorized_cmdFetch (args : List Bytes) :
    CallsOnly (Authorized w (ascii "fetch" :: args)) (cmdFetch w (ascii "fetch" :: args)) := by
  by_cases hshape : ∃ host text remote path, args = [host, text, remote, path]
  · obtain ⟨host, text, remote, path, rfl⟩ := hshape
    rw [cmdFetch_eq]
    split
    · rename_i h
      refine .bind (authorized_connectTcp (authorized_plain _) (.inr (.fetchSocket h.1))
        fun _ _ hhost => .inr (.fetchConnect h.1 hhost)) fun socket => ?_
      cases socket with
      | none => exact .ret
      | some socket =>
        exact authorized_fetchFrom (authorized_plain _) w _ _ _ (.inr .fetchOpen)
          (fun _ => .inr .fetchMode) (fun _ _ => .inr (.fetchWrite h.1)) (.inr .fetchRemove)
    · exact calls_putLine (authorized_write _) _
  · unfold cmdFetch
    split
    · rename_i host text remote path heq
      exact absurd ⟨host, text, remote, path, (List.cons.inj heq).2⟩ hshape
    · exact calls_putLine (authorized_write _) _

theorem authorized_cmdRun (args : List Bytes) :
    CallsOnly (Authorized w (ascii "run" :: args)) (cmdRun w (ascii "run" :: args)) := by
  unfold cmdRun
  split
  · rename_i path rest heq
    obtain ⟨-, rfl⟩ := List.cons.inj heq
    exact authorized_runProgram (authorized_plain _) fun c hc => .inr (.run hc)
  · exact calls_putLine (authorized_write _) _

/-- Every entry of the command table keeps to its line of `Permits`. -/
theorem authorized_commands (w : Word) :
    ∀ command ∈ commands w, ∀ args,
      CallsOnly (Authorized w (ascii command.1 :: args)) (command.2 (ascii command.1 :: args)) := by
  intro command hmem args
  simp only [commands, List.mem_cons, List.not_mem_nil, or_false] at hmem
  rcases hmem with rfl | rfl | rfl | rfl | rfl | rfl | rfl | rfl | rfl | rfl | rfl | rfl | rfl |
    rfl | rfl | rfl | rfl | rfl | rfl | rfl | rfl | rfl | rfl | rfl | rfl | rfl
  · exact authorized_cmdHelp _
  · exact authorized_cmdEcho _
  · exact authorized_cmdPwd _
  · exact authorized_cmdCd args
  · exact authorized_cmdLs args
  · exact authorized_cmdCat args
  · exact authorized_cmdCp args
  · exact authorized_cmdTouch args
  · exact authorized_cmdMkdir args
  · exact authorized_cmdRemove_rm args
  · exact authorized_cmdRemove_rmdir args
  · exact authorized_cmdMount args
  · exact authorized_cmdSync args
  · exact authorized_cmdUname _
  · exact authorized_cmdUptime _
  · exact authorized_cmdFree _
  · exact authorized_cmdSleep args
  · exact authorized_cmdIfconfig args
  · exact authorized_cmdPing args
  · exact authorized_cmdNc args
  · exact authorized_cmdFetch args
  · exact authorized_cmdRun args
  · exact calls_putsRaw (authorized_write _) _
  · exact .bind (calls_status (.inr .reboot)) fun _ => calls_printError (authorized_write _) _ _
  · exact .bind (calls_status (.inr .poweroff)) fun _ => calls_printError (authorized_write _) _ _
  · exact calls_putLine (authorized_write _) _

theorem authorized_runCommand (w : Word) (argv : List Bytes) :
    CallsOnly (Authorized w argv) (runCommand w argv) := by
  cases argv with
  | nil => exact .ret
  | cons name args =>
    rw [runCommand]
    split
    · rename_i command hfound
      obtain rfl : name = ascii command.1 := by simpa using List.find?_some hfound
      exact authorized_commands w command (List.mem_of_find?_eq_some hfound) args
    · split
      · rename_i hslash
        exact authorized_runProgram (authorized_plain _) fun c hc => .inr (.program hslash hc)
      · exact .bind (calls_putsRaw (authorized_write _) _) fun _ =>
          calls_putLine (authorized_write _) _

end Commands

/-! ## Sessions -/

/-- The bytes read from the console. -/
def typed (t : Trace Call Reply) : Bytes :=
  t.flatMap fun e =>
    match e.1 with
    | .read 0 _ => e.2.bytes
    | _ => []

theorem typed_append (t u : Trace Call Reply) : typed (t ++ u) = typed t ++ typed u :=
  List.flatMap_append

/-- Nothing is typed in what is only printed. -/
theorem typed_prompt {text : Bytes} {t : Trace Call Reply} {u : Unit}
    (h : Runs (putsRaw text) t u) : typed t = [] := by
  have hwrites := (calls_putsRaw (P := fun c => ∃ bytes, c = .write 1 bytes)
    (fun bytes => ⟨bytes, rfl⟩) text).of_runs h
  apply List.flatMap_eq_nil_iff.mpr
  intro e he
  obtain ⟨bytes, hbytes⟩ := hwrites e he
  rw [hbytes]

/-- A round of `read_line` ends the line or takes one byte from the console. -/
theorem readTurn_cases {capacity : Nat} {line : Bytes} {t : Trace Call Reply}
    {r : Bytes ⊕ Option Bytes} (h : Runs (readTurn capacity line) t r) (hl : Legal t) :
    (¬ line.length + 1 < capacity ∧ typed t = [] ∧ r = .inr (some line)) ∨
      (line.length + 1 < capacity ∧ ((r = .inr none ∧ typed t = [] ∧
          ∃ answer, t = [(.read 0 1, answer)] ∧ answer.value ≤ 0) ∨ ∃ c, typed t = [c] ∧
        r = if c = cr then .inl line else if c = lf then .inr (some line)
          else .inl (line ++ [c]))) := by
  rw [readTurn] at h
  by_cases hroom : line.length + 1 < capacity
  · rw [if_pos hroom] at h
    obtain ⟨answer, u, rfl, hu⟩ := runs_ask_bind.mp h
    refine .inr ⟨hroom, ?_⟩
    by_cases hfailed : answer.value ≤ 0
    · simp only [if_pos hfailed] at hu
      obtain ⟨rfl, hr⟩ := runs_ret.mp hu
      have hnone : answer.bytes = [] := by
        rw [Reply.bytes, Int.toNat_of_nonpos hfailed, List.take_zero]
      exact .inl ⟨hr, by simp [typed, hnone], answer, rfl, hfailed⟩
    · simp only [if_neg hfailed] at hu
      have hallows : answer.value ≤ 1 ∧ answer.value ≤ answer.data.length := by
        simpa [Call.allows] using hl _ List.mem_cons_self
      have hone : answer.value.toNat = 1 := by omega
      obtain ⟨key, rest, hdata⟩ : ∃ key rest, answer.data = key :: rest := by
        apply List.exists_cons_of_ne_nil
        intro hnil
        rw [hnil] at hallows
        simp only [List.length_nil] at hallows
        omega
      have hhead : answer.data.headD 0 = key := by rw [hdata]; rfl
      have hbytes : answer.bytes = [key] := by rw [Reply.bytes, hone, hdata]; rfl
      rw [hhead] at hu
      have hends : u = [] ∧ r = if key = cr then .inl line
          else if key = lf then .inr (some line) else .inl (line ++ [key]) := by
        split at hu
        · rename_i hcr
          rw [if_pos hcr]
          exact runs_ret.mp hu
        · rename_i hcr
          rw [if_neg hcr]
          split at hu
          · rename_i hlf
            rw [if_pos hlf]
            exact runs_ret.mp hu
          · rename_i hlf
            rw [if_neg hlf]
            exact runs_ret.mp hu
      obtain ⟨rfl, hr⟩ := hends
      refine .inr ⟨key, ?_, hr⟩
      simp [typed, hbytes]
  · rw [if_neg hroom] at h
    obtain ⟨rfl, hr⟩ := runs_ret.mp h
    exact .inl ⟨hroom, rfl, hr⟩

/-- `read_line` takes the bytes of one line from the console. -/
theorem readLine_typed {capacity : Nat} {t : Trace Call Reply} {line : Bytes}
    (h : Runs (readLine capacity) t (some line)) (hl : Legal t) :
    LinuxBuild.readLine capacity (typed t) = some (line, []) := by
  -- by induction on the bytes, for the line read so far
  have hkeys : ∀ x t a, Runs (.loop (readTurn capacity) x) t a → Legal t → ∀ line, a = some line →
      readLineFrom capacity x (typed t) = some (line, []) := by
    intro x t a h
    refine loop_induction (motive := fun x t a => Legal t → ∀ line, a = some line →
      readLineFrom capacity x (typed t) = some (line, [])) ?_ ?_ h
    · rintro x t _ hturn hl line rfl
      obtain ⟨hfull, hnone, hr⟩ | ⟨hroom, ⟨hr, _⟩ | ⟨c, hone, hr⟩⟩ := readTurn_cases hturn hl
      · cases hr
        rw [hnone, readLineFrom, if_neg hfull]
      · cases hr
      · rw [hone]
        split at hr
        · cases hr
        · rename_i hcr
          split at hr
          · rename_i hlf
            cases hr
            rw [readLineFrom, if_pos hroom, if_neg hcr, if_pos hlf]
          · cases hr
    · rintro x y t u a hturn _ ih hl line rfl
      obtain ⟨hlt, hlu⟩ := legal_append.mp hl
      rw [typed_append]
      obtain ⟨_, _, hr⟩ | ⟨hroom, ⟨hr, _⟩ | ⟨c, hone, hr⟩⟩ := readTurn_cases hturn hlt
      · cases hr
      · cases hr
      · rw [hone, List.cons_append, List.nil_append, readLineFrom, if_pos hroom]
        split at hr
        · rename_i hcr
          cases hr
          rw [if_pos hcr]
          exact ih hlu line rfl
        · rename_i hcr
          split at hr
          · cases hr
          · rename_i hlf
            cases hr
            rw [if_neg hcr, if_neg hlf]
            exact ih hlu line rfl
  exact hkeys [] t _ h hl line rfl

theorem plain_readLine (capacity : Nat) :
    CallsOnly (fun c => c.isPlain = true) (readLine capacity) := by
  refine .loop fun line => ?_
  rw [readTurn]
  refine .ite (.bind (.ask rfl) fun r => .ite .ret (.ite .ret ?_)) .ret
  exact .ite .ret .ret

/-- A call of a turn that is not plain belongs to the command of the line read. -/
theorem makes_shellTurn {w : Word} {t : Trace Call Reply} {c : Call} (h : Makes (shellTurn w) t c)
    (hl : Legal t) (hc : c.isPlain = false) :
    ∃ keys after line, t = keys ++ after ∧
      LinuxBuild.readLine lineCapacity (typed keys) = some (line, []) ∧
      Makes (runCommand w (argvOf (cstr line) argvCapacity)) after c := by
  have hputs : ∀ {text v}, ¬ Makes (putsRaw text) v c := by
    intro text v hmade
    have hplain := calls_putsRaw (P := fun c => c.isPlain = true) (fun _ => rfl) text v c hmade
    exact Bool.false_ne_true (hc.symm.trans hplain)
  obtain hmade | ⟨prompt, rest, _, rfl, hprompt, hmade⟩ := makes_bind.mp h
  · exact absurd hmade hputs
  · obtain hmade | ⟨reading, after, read, rfl, hread, hmade⟩ := makes_bind.mp hmade
    · exact absurd (hc.symm.trans (plain_readLine _ _ _ hmade)) Bool.false_ne_true
    · cases read with
      | none => exact absurd hmade hputs
      | some line =>
        obtain ⟨_, hl⟩ := legal_append.mp hl
        obtain ⟨hl, _⟩ := legal_append.mp hl
        refine ⟨prompt ++ reading, after, line, (List.append_assoc _ _ _).symm, ?_, hmade⟩
        rw [typed_append, typed_prompt hprompt, List.nil_append]
        exact readLine_typed hread hl

/-- A turn works on the standard descriptors and on those it has been handed. -/
theorem descriptors_of_turn {w : Word} {n : Nat} {before turn : Trace Call Reply} {c : Call}
    (hbefore : Runs (rounds w n) before ()) (hturn : Makes (shellTurn w) turn c)
    (hf : FreshDescriptors standard (before ++ turn)) :
    ∀ fd ∈ usedBy c, fd ∈ standard ∨ ∃ e ∈ turn, obtainedBy e.1 e.2 = some fd := by
  obtain ⟨hfb, hft⟩ := Monitor.follows_append.mp hf
  obtain ⟨hafter, -⟩ := (releases_rounds w n).run (Finset.Subset.refl _) hbefore hfb
  rw [hafter] at hft
  have hmeets := releases_shellTurn (Finset.Subset.refl standard) w ⟨standard, false⟩
    (Finset.Subset.refl _) trivial
  intro fd hfd
  exact Handles.mem_after ((hmeets.calls hturn hft).1 fd hfd)

/-- In every session, a call that changes a directory or a file, names a host or a
process or stops something is one of the first mounts, or the line typed since the
last prompt is one that permits it and its command is the one that runs. It works on
descriptors of the console or of that command, if the kernel hands out no descriptor
twice. -/
theorem effects_authorized {w : Word} {t : Trace Call Reply} {c : Call}
    (h : Makes (start w : Sys Empty) t c) (hl : Legal t) (hc : c.isPlain = false) :
    (Makes startUp t c ∧ c ∈ defaultMounts) ∨
      ∃ n before keys after line, t = before ++ (keys ++ after) ∧ Runs (rounds w n) before () ∧
        LinuxBuild.readLine lineCapacity (typed keys) = some (line, []) ∧
        Makes (runCommand w (argvOf (cstr line) argvCapacity)) after c ∧
        Permits w (argvOf (cstr line) argvCapacity) c ∧
        (FreshDescriptors standard t → ∀ fd ∈ usedBy c,
          fd ∈ standard ∨ ∃ e ∈ keys ++ after, obtainedBy e.1 e.2 = some fd) := by
  obtain hmade | ⟨n, before, turn, rfl, hbefore, hturn⟩ := makes_start h
  · have hcalls : CallsOnly (fun c => c.isPlain = true ∨ c ∈ defaultMounts) startUp :=
      .bind (authorized_mountDefaults fun c hc => .inr hc) fun _ =>
        calls_putLine (fun _ => .inl rfl) _
    obtain hplain | hmount := hcalls _ _ hmade
    · exact absurd (hc.symm.trans hplain) Bool.false_ne_true
    · exact .inl ⟨hmade, hmount⟩
  · obtain ⟨keys, after, line, rfl, hline, hmade⟩ :=
      makes_shellTurn hturn (legal_append.mp hl).2 hc
    obtain hplain | hpermits := authorized_runCommand w _ _ _ hmade
    · exact absurd (hc.symm.trans hplain) Bool.false_ne_true
    · exact .inr ⟨n, before, keys, after, line, rfl, hbefore, hline, hmade, hpermits,
        descriptors_of_turn hbefore hturn⟩

/-- The console takes what is printed and delivers the keys. -/
def typingKeys : List Reply → Call → Reply × List Reply
  | keys, .write _ bytes => (⟨bytes.length, [], []⟩, keys)
  | key :: keys, .read _ _ => (key, keys)
  | keys, _ => (⟨0, [], []⟩, keys)

/-- `rm x` removes `x`, and its line is the one that permits it. -/
theorem effects_authorized_rm :
    ∃ t line, Makes (start .rv32 : Sys Empty) t (.unlinkat (ascii "x") 0) ∧
      typed t = ascii "rm x\n" ∧
      Permits .rv32 (argvOf (cstr line) argvCapacity) (.unlinkat (ascii "x") 0) := by
  let keys : List Reply := (ascii "rm x\n").map fun c => ⟨1, [c], []⟩
  obtain ⟨u, _, hu, hlu, htu⟩ : ∃ u a, Runs startUp u a ∧ Legal u ∧ typed u = [] :=
    exists_runs_of_exec typingKeys 60 keys (P := fun u => Legal u ∧ typed u = [])
      (by decide +kernel)
  obtain ⟨v, _, hv, hlv, htv, hcall⟩ : ∃ v a, Runs (shellTurn .rv32) v a ∧ Legal (v.take 6) ∧
      typed (v.take 6) = ascii "rm x\n" ∧ v.drop 6 = [(.unlinkat (ascii "x") 0, ⟨0, [], []⟩)] :=
    exists_runs_of_exec typingKeys 60 keys (P := fun v => Legal (v.take 6) ∧
      typed (v.take 6) = ascii "rm x\n" ∧ v.drop 6 = [(.unlinkat (ascii "x") 0, ⟨0, [], []⟩)])
      (by decide +kernel)
  have hmade : Makes (shellTurn .rv32) (v.take 6) (.unlinkat (ascii "x") 0) :=
    hv.makes (by rw [← hcall, List.take_append_drop])
  have hstart : Makes (start .rv32 : Sys Empty) (u ++ v.take 6) (.unlinkat (ascii "x") 0) :=
    .second hu (.turn (.first hmade))
  have htyped : typed (u ++ v.take 6) = ascii "rm x\n" := by rw [typed_append, htu, htv]; rfl
  obtain ⟨_, hmount⟩ | ⟨_, _, _, _, line, _, _, _, _, hpermits, _⟩ :=
    effects_authorized hstart (legal_append.mpr ⟨hlu, hlv⟩) rfl
  · exact absurd hmount (by decide)
  · exact ⟨u ++ v.take 6, line, hstart, htyped, hpermits⟩

end LinuxBuild.Payload
