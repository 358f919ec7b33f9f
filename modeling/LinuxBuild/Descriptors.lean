import LinuxBuild.Handles
import LinuxBuild.Commands

/-!
# The descriptors of PID 1

Every command closes what it opens: each function of the payload keeps to the
discipline of `Handles`, with descriptors for handles and descriptors 0, 1 and
2 pinned, and so does a whole session.
-/

namespace LinuxBuild.Payload

open Interaction Handles

/-- The descriptors init starts with. -/
def standard : Finset Nat := {0, 1, 2}

def usedBy : Call → List Nat
  | .ioctl fd _ _ | .fchmod fd _ | .close fd | .getdents64 fd _ | .read fd _ | .write fd _
  | .bind fd _ | .listen fd _ | .accept fd | .connect fd _ | .sendto fd _ _ | .recvfrom fd _
  | .setsockopt fd _ _ _ => [fd]
  | .ppoll fds _ => fds.map Prod.fst
  | _ => []

def obtainedBy : Call → Reply → Option Nat
  | .openat .., r | .socket .., r | .accept .., r => r.descriptor
  | _, _ => none

def closedBy : Call → Option Nat
  | .close fd => some fd
  | _ => none

/-- The child of a `clone` sees the reply 0. -/
def isChild : Call → Reply → Bool
  | .clone _, r => r.value = 0
  | _, _ => false

def descriptors : Handles Call Reply Nat where
  uses := usedBy
  gets := obtainedBy
  drops := closedBy
  strays := isChild
  pinned := standard

/-! ## Single calls -/

section Calls

variable {use : Finset Nat} {hs : List Nat} {α : Type} {out : α → Option Nat}

theorem releases_pure {a : α} : descriptors.Releases use [] (pure a : Sys α) :=
  releases_ret

theorem releases_ask {c : Call} (hc : descriptors.Plain use c) (hchild : ∀ r, isChild c r = false) :
    descriptors.Releases use [] (.ask c) :=
  manages_call hc hchild fun _ => releases_pure

theorem releases_status {c : Call} (hc : descriptors.Plain use c)
    (hchild : ∀ r, isChild c r = false) : descriptors.Releases use [] (status c) :=
  manages_after (releases_ask hc hchild) fun _ => releases_pure

/-- A call that names no descriptor. -/
theorem plain_of_nil {c : Call} (huses : usedBy c = []) (hgets : ∀ r, obtainedBy c r = none)
    (hdrops : closedBy c = none) : descriptors.Plain use c where
  uses h hh := by rw [show descriptors.uses c = [] from huses] at hh; cases hh
  gets := hgets
  drops := hdrops

/-- A call on one descriptor. -/
theorem plain_of_mem {c : Call} {fd : Nat} (huses : usedBy c = [fd])
    (hgets : ∀ r, obtainedBy c r = none) (hdrops : closedBy c = none) (hfd : fd ∈ use) :
    descriptors.Plain use c where
  uses h hh := by
    rw [show descriptors.uses c = [fd] from huses, List.mem_singleton] at hh
    rw [hh]
    exact hfd
  gets := hgets
  drops := hdrops

theorem harmless_of_mem {c : Call} {fd : Nat} (huses : usedBy c = [fd])
    (hgets : ∀ r, obtainedBy c r = none) (hdrops : closedBy c = none)
    (hchild : ∀ r, isChild c r = false) (hfd : fd ∈ use) : descriptors.Harmless use c :=
  { plain_of_mem huses hgets hdrops hfd with stays := hchild }

theorem harmless_read {fd : Nat} (hfd : fd ∈ use) (count : Nat) :
    descriptors.Harmless use (.read fd count) :=
  harmless_of_mem rfl (fun _ => rfl) rfl (fun _ => rfl) hfd

theorem harmless_write {fd : Nat} (hfd : fd ∈ use) (bytes : Bytes) :
    descriptors.Harmless use (.write fd bytes) :=
  harmless_of_mem rfl (fun _ => rfl) rfl (fun _ => rfl) hfd

/-- A call that hands out a descriptor. -/
theorem manages_open {c : Call} (huses : ∀ h ∈ usedBy c, h ∈ use)
    (hgets : ∀ r, obtainedBy c r = r.descriptor) (hdrops : closedBy c = none)
    (hchild : ∀ r, isChild c r = false) :
    descriptors.Manages use [] id (do pure (← Prog.ask c).descriptor : Sys (Option Nat)) := by
  have hask : descriptors.Manages use [] (obtainedBy c) (.ask c) := by
    apply manages_get huses hdrops hchild
    intro r
    rw [List.append_nil]
    exact manages_ret
  show descriptors.Manages use ([] ++ []) id _
  apply manages_bind hask
  intro r
  rw [hgets, List.append_nil]
  exact fun _ _ hfresh => .ret ⟨hfresh, rfl⟩

theorem releases_read {fd : Nat} (hfd : fd ∈ use) (count : Nat) :
    descriptors.Releases use [] (sysRead fd count) :=
  releases_ask (plain_of_mem rfl (fun _ => rfl) rfl hfd) fun _ => rfl

theorem releases_close (hu : standard ⊆ use) (fd : Nat) :
    descriptors.Releases use [fd] (sysClose fd) := by
  have hask : descriptors.Releases use [fd] (.ask (.close fd)) :=
    manages_drop rfl (fun x hx => List.mem_singleton.mp hx) (fun _ => rfl) (fun _ => rfl) hu
      fun _ => releases_ret
  exact manages_pop hask fun _ => releases_pure

theorem manages_openat (path : Bytes) (flags mode : Nat) :
    descriptors.Manages use [] id (sysOpenat path flags mode) :=
  manages_open (fun h hh => by cases hh) (fun _ => rfl) rfl fun _ => rfl

theorem manages_socket (domain type protocol : Nat) :
    descriptors.Manages use [] id (sysSocket domain type protocol) :=
  manages_open (fun h hh => by cases hh) (fun _ => rfl) rfl fun _ => rfl

theorem manages_accept {fd : Nat} (hfd : fd ∈ use) :
    descriptors.Manages use [] id (sysAccept fd) := by
  refine manages_open (fun h hh => ?_) (fun _ => rfl) rfl fun _ => rfl
  rw [List.mem_singleton.mp hh]
  exact hfd

end Calls

/-! ## Printing and reading -/

section Stdio

variable {use : Finset Nat} (hu : standard ⊆ use)

theorem releases_forEach {ι : Type} {xs : List ι} {f : ι → Sys Unit}
    (h : ∀ x, descriptors.Releases use [] (f x)) :
    descriptors.Releases use [] (Prog.forEach xs f) := by
  induction xs with
  | nil => exact releases_pure
  | cons x xs ih => exact manages_after (h x) fun _ => ih

include hu

theorem harmless_print (bytes : Bytes) : descriptors.Harmless use (.write 1 bytes) :=
  harmless_write (hu (by decide)) bytes

theorem releases_putsRaw (text : Bytes) : descriptors.Releases use [] (putsRaw text) :=
  releases_of_calls (calls_putsRaw (harmless_print hu) text)

theorem releases_putLine (text : Bytes) : descriptors.Releases use [] (putLine text) :=
  releases_of_calls (calls_putLine (harmless_print hu) text)

theorem releases_printUnsigned (value : Nat) : descriptors.Releases use [] (printUnsigned value) :=
  releases_of_calls (calls_printUnsigned (harmless_print hu) value)

theorem releases_printU64 (value : Nat) : descriptors.Releases use [] (printU64 value) :=
  releases_of_calls (calls_printU64 (harmless_print hu) value)

theorem releases_printIpv4 (address : Nat) : descriptors.Releases use [] (printIpv4 address) :=
  releases_of_calls (calls_printIpv4 (harmless_print hu) address)

theorem releases_printError (command : Bytes) (target : Option Bytes) :
    descriptors.Releases use [] (printError command target) :=
  releases_of_calls (calls_printError (harmless_print hu) command target)

theorem releases_readLine (capacity : Nat) : descriptors.Releases use [] (readLine capacity) := by
  apply releases_loop
  intro line
  rw [readTurn]
  split
  · apply manages_after (releases_read (hu (by decide)) 1)
    intro r
    dsimp only
    repeat' split
    all_goals exact releases_pure
  · exact releases_pure

end Stdio

/-! ## The network commands -/

section Net

variable {use : Finset Nat} (hu : standard ⊆ use)
include hu

theorem standard_stacked (hs : List Nat) : standard ⊆ stacked hs use :=
  hu.trans (subset_stacked hs use)

theorem releases_showAddress {fd : Nat} (hfd : fd ∈ use) (request : Nat) (interface label : Bytes) :
    descriptors.Releases use [] (showAddress fd request interface label) := by
  refine manages_after (releases_ask (plain_of_mem rfl (fun _ => rfl) rfl hfd) fun _ => rfl)
    fun r => ?_
  split
  · apply manages_after (releases_putsRaw hu _)
    intro _
    exact manages_after (releases_printIpv4 hu _) fun _ => releases_putsRaw hu _
  · exact releases_pure

theorem releases_ifconfigOn (fd : Nat) (interface : Bytes) :
    descriptors.Releases use [fd] (ifconfigOn fd interface) := by
  have hu' := standard_stacked hu [fd]
  have hfd : fd ∈ stacked [fd] use := Finset.mem_insert_self _ _
  apply manages_after (releases_putsRaw hu' _)
  intro _
  refine manages_after (releases_ask (plain_of_mem rfl (fun _ => rfl) rfl hfd) fun _ => rfl)
    fun r => ?_
  split
  · exact manages_after (releases_putsRaw hu' _) fun _ => releases_close hu fd
  · apply manages_after (releases_putsRaw hu' _)
    intro _
    refine manages_after ?_ fun _ => manages_after ?_ fun _ => ?_
    · split
      · exact releases_putsRaw hu' _
      · exact releases_pure
    · split
      · exact releases_putsRaw hu' _
      · exact releases_pure
    · apply manages_after (releases_putsRaw hu' _)
      intro _
      apply manages_after (releases_showAddress hu' hfd _ _ _)
      intro _
      exact manages_after (releases_showAddress hu' hfd _ _ _) fun _ => releases_close hu fd

theorem releases_cmdIfconfig (argv : List Bytes) :
    descriptors.Releases use [] (cmdIfconfig argv) :=
  manages_push (manages_socket _ _ _) (releases_printError hu _ _) fun fd =>
    releases_ifconfigOn hu fd _

theorem releases_replyLine (address sequence : Nat) :
    descriptors.Releases use [] (replyLine address sequence) :=
  releases_of_calls (calls_replyLine (harmless_print hu) address sequence)

theorem releases_timeoutLine (sequence : Nat) :
    descriptors.Releases use [] (timeoutLine sequence) :=
  releases_of_calls (calls_timeoutLine (harmless_print hu) sequence)

theorem releases_pingTurn {fd : Nat} (hfd : fd ∈ use) (destination : SockaddrIn) (sequence : Nat) :
    descriptors.Releases use [] (pingTurn fd destination sequence) := by
  refine manages_after (releases_status (plain_of_mem rfl (fun _ => rfl) rfl hfd) fun _ => rfl)
    fun sent => ?_
  split
  · exact manages_after (releases_putLine hu _) fun _ => releases_pure
  · refine manages_after (releases_status (plain_of_mem rfl (fun _ => rfl) rfl hfd) fun _ => rfl)
      fun ready => ?_
    split
    · exact manages_after (releases_timeoutLine hu _) fun _ => releases_pure
    · refine manages_after (releases_ask (plain_of_mem rfl (fun _ => rfl) rfl hfd) fun _ => rfl)
        fun r => ?_
      split
      · exact manages_after (releases_replyLine hu _ _) fun _ => releases_pure
      · exact manages_after (releases_putLine hu _) fun _ => releases_pure

theorem releases_pingTurns {fd : Nat} (hfd : fd ∈ use) (destination : SockaddrIn)
    (sequences : List Nat) (received : Nat) :
    descriptors.Releases use [] (pingTurns fd destination sequences received) := by
  induction sequences generalizing received with
  | nil => exact releases_pure
  | cons sequence rest ih =>
    exact manages_after (releases_pingTurn hu hfd destination sequence) fun _ => ih _

theorem releases_pingOn (fd : Nat) (destination : SockaddrIn) (name : Bytes) :
    descriptors.Releases use [fd] (pingOn fd destination name) := by
  have hu' := standard_stacked hu [fd]
  apply manages_after (releases_putsRaw hu' _)
  intro _
  apply manages_after (releases_putLine hu' _)
  intro _
  apply manages_after (releases_pingTurns hu' (Finset.mem_insert_self _ _) _ _ _)
  intro _
  apply manages_after (releases_printUnsigned hu' _)
  intro _
  exact manages_after (releases_putLine hu' _) fun _ => releases_close hu fd

theorem releases_cmdPing (argv : List Bytes) : descriptors.Releases use [] (cmdPing argv) := by
  unfold cmdPing
  split
  · split
    · exact releases_putLine hu _
    · exact manages_push (manages_socket _ _ _) (releases_printError hu _ _) fun fd =>
        releases_pingOn hu fd _ _
  · exact releases_putLine hu _

theorem releases_relayOn {socket : Nat} (hs : socket ∈ use) :
    descriptors.Releases use [] (relayOn socket) := by
  have hpoll : descriptors.Plain use (.ppoll [(0, pollin), (socket, pollin)] none) := by
    refine ⟨fun h hh => ?_, fun _ => rfl, rfl⟩
    simp only [descriptors, usedBy, List.map_cons, List.map_nil, List.mem_cons, List.not_mem_nil,
      or_false] at hh
    rcases hh with rfl | rfl
    · exact hu (by decide)
    · exact hs
  apply releases_of_calls
  apply calls_relayOn (harmless_print hu) { hpoll with stays := fun _ => rfl }
  · rintro fd n (rfl | rfl)
    · exact harmless_read (hu (by decide)) n
    · exact harmless_read hs n
  · exact harmless_write hs

theorem releases_ncClient (host : Bytes) (port : Nat) :
    descriptors.Releases use [] (ncClient host port) := by
  unfold ncClient
  split
  · exact releases_putLine hu _
  · refine manages_push (manages_socket _ _ _) (releases_printError hu _ _) fun fd => ?_
    have hu' := standard_stacked hu [fd]
    have hfd : fd ∈ stacked [fd] use := Finset.mem_insert_self _ _
    refine manages_after (releases_status (plain_of_mem rfl (fun _ => rfl) rfl hfd) fun _ => rfl)
      fun connected => ?_
    split
    · exact manages_after (releases_printError hu' _ _) fun _ => releases_close hu fd
    · apply manages_after (releases_putsRaw hu' _)
      intro _
      apply manages_after (releases_printIpv4 hu' _)
      intro _
      apply manages_after (releases_putsRaw hu' _)
      intro _
      apply manages_after (releases_printUnsigned hu' _)
      intro _
      apply manages_after (releases_putsRaw hu' _)
      intro _
      exact manages_after (releases_relayOn hu' hfd) fun _ => releases_close hu fd

theorem releases_acceptOn (listener port : Nat) :
    descriptors.Releases use [listener] (acceptOn listener port) := by
  have hu' := standard_stacked hu [listener]
  apply manages_after (releases_putsRaw hu' _)
  intro _
  apply manages_after (releases_printUnsigned hu' _)
  intro _
  apply manages_after (releases_putsRaw hu' _)
  intro _
  refine manages_push (manages_accept (Finset.mem_insert_self _ _)) ?_ fun connection => ?_
  · exact manages_after (releases_printError hu' _ _) fun _ => releases_close hu listener
  · have hu'' := standard_stacked hu [connection, listener]
    apply manages_after (releases_putLine hu'' _)
    intro _
    apply manages_after (releases_relayOn hu'' (Finset.mem_insert_self _ _))
    intro _
    exact manages_pop (releases_close hu' connection) fun _ => releases_close hu listener

theorem releases_ncListen (port : Nat) : descriptors.Releases use [] (ncListen port) := by
  refine manages_push (manages_socket _ _ _) (releases_printError hu _ _) fun listener => ?_
  have hu' := standard_stacked hu [listener]
  have hstatus : ∀ c, usedBy c = [listener] → (∀ r, obtainedBy c r = none) → closedBy c = none →
      (∀ r, isChild c r = false) → descriptors.Releases (stacked [listener] use) [] (status c) :=
    fun c huses hgets hdrops hchild =>
      releases_status (plain_of_mem huses hgets hdrops (Finset.mem_insert_self _ _)) hchild
  have hfailed : descriptors.Releases use [listener] (do ncError "listen"; sysClose listener) :=
    manages_after (releases_printError hu' _ _) fun _ => releases_close hu listener
  apply manages_after (hstatus _ rfl (fun _ => rfl) rfl fun _ => rfl)
  intro _
  apply manages_after (hstatus _ rfl (fun _ => rfl) rfl fun _ => rfl)
  intro bound
  split
  · exact hfailed
  · apply manages_after (hstatus _ rfl (fun _ => rfl) rfl fun _ => rfl)
    intro listening
    split
    · exact hfailed
    · exact releases_acceptOn hu listener port

theorem releases_cmdNc (w : Word) (argv : List Bytes) :
    descriptors.Releases use [] (cmdNc w argv) := by
  unfold cmdNc
  split
  · split
    · split
      · exact releases_putLine hu _
      · exact releases_ncListen hu _
    · split
      · exact releases_ncClient hu _ _
      · exact releases_putLine hu _
  · exact releases_putLine hu _

end Net

/-! ## fetch and run -/

section Transfer

variable {use : Finset Nat} (hu : standard ⊆ use)
include hu

/-- The socket stays open only where the descriptor is returned. -/
theorem manages_connectTcp (host : Bytes) (port : Nat) :
    descriptors.Manages use [] id (connectTcp host port) := by
  have hnone : descriptors.Manages use [] id (pure none : Sys (Option Nat)) :=
    fun _ _ hfresh => .ret ⟨hfresh, rfl⟩
  unfold connectTcp
  split
  · exact manages_after (releases_putLine hu _) fun _ => hnone
  · refine manages_push (manages_socket _ _ _) ?_ fun fd => ?_
    · exact manages_after (releases_printError hu _ _) fun _ => hnone
    · have hfd : fd ∈ stacked [fd] use := Finset.mem_insert_self _ _
      refine manages_after (releases_status (plain_of_mem rfl (fun _ => rfl) rfl hfd) fun _ => rfl)
        fun connected => ?_
      split
      · apply manages_pop (releases_close hu fd)
        intro _
        exact manages_after (releases_printError hu _ _) fun _ => hnone
      · exact fun _ _ hfresh => .ret ⟨hfresh, rfl⟩

omit hu in
theorem releases_writeEach {fd : Nat} (hfd : fd ∈ use) (texts : List Bytes) :
    descriptors.Releases use [] (writeEach fd texts) :=
  releases_of_calls (calls_writeEach (harmless_write hfd) texts)

omit hu in
theorem releases_readResponseHeader {fd : Nat} (hfd : fd ∈ use) (capacity : Nat) :
    descriptors.Releases use [] (readResponseHeader fd capacity) :=
  releases_of_calls (calls_readResponseHeader (harmless_read hfd) capacity)

omit hu in
theorem releases_copyBody {socket output : Nat} (hs : socket ∈ use) (ho : output ∈ use) :
    descriptors.Releases use [] (copyBody socket output) :=
  releases_of_calls (calls_copyBody (harmless_read hs) (harmless_write ho))

omit hu in
theorem releases_unlinkat (path : Bytes) (flags : Nat) :
    descriptors.Releases use [] (status (.unlinkat path flags)) :=
  releases_status (plain_of_nil rfl (fun _ => rfl) rfl) fun _ => rfl

theorem releases_fetchBody (expected : Option Nat) (socket output : Nat) (path : Bytes) :
    descriptors.Releases use [output, socket] (fetchBody expected socket output path) := by
  have hmem : socket ∈ stacked [output, socket] use ∧ output ∈ stacked [output, socket] use := by
    simp
  apply manages_after (releases_copyBody hmem.1 hmem.2)
  intro result
  apply manages_pop (releases_close (standard_stacked hu [socket]) output)
  intro _
  apply manages_pop (releases_close hu socket)
  intro _
  split
  · exact manages_after (releases_unlinkat path 0) fun _ => releases_printError hu _ _
  · apply manages_after (releases_putsRaw hu _)
    intro _
    apply manages_after (releases_printU64 hu _)
    intro _
    exact manages_after (releases_putsRaw hu _) fun _ => releases_putLine hu _

theorem releases_fetchInto (expected : Option Nat) (socket : Nat) (path : Bytes) :
    descriptors.Releases use [socket] (fetchInto expected socket path) := by
  have hu' := standard_stacked hu [socket]
  refine manages_push (manages_openat _ _ _) ?_ fun output => ?_
  · exact manages_after (releases_printError hu' _ _) fun _ => releases_close hu socket
  · have hmem : output ∈ stacked [output, socket] use := Finset.mem_insert_self _ _
    refine manages_after (releases_status (plain_of_mem rfl (fun _ => rfl) rfl hmem) fun _ => rfl)
      fun changed => ?_
    split
    · apply manages_after (releases_printError (standard_stacked hu _) _ _)
      intro _
      apply manages_pop (releases_close hu' output)
      intro _
      exact manages_after (releases_unlinkat path 0) fun _ => releases_close hu socket
    · exact releases_fetchBody hu expected socket output path

theorem releases_fetchFrom (w : Word) (socket : Nat) (host remote path : Bytes) :
    descriptors.Releases use [socket] (fetchFrom w socket host remote path) := by
  have hu' := standard_stacked hu [socket]
  have hmem : socket ∈ stacked [socket] use := Finset.mem_insert_self _ _
  have hsay : ∀ text, descriptors.Releases use [socket] (do putLine text; sysClose socket) :=
    fun text => manages_after (releases_putLine hu' text) fun _ => releases_close hu socket
  apply manages_after (releases_writeEach hmem _)
  intro sent
  split
  · exact hsay _
  · apply manages_after (releases_readResponseHeader hmem 1024)
    intro header
    split
    · exact hsay _
    · split
      · exact hsay _
      · exact releases_fetchInto hu none socket path
      · exact releases_fetchInto hu (some _) socket path

theorem releases_cmdFetch (w : Word) (argv : List Bytes) :
    descriptors.Releases use [] (cmdFetch w argv) := by
  unfold cmdFetch
  split
  · split
    · exact releases_putLine hu _
    · split
      · exact releases_putLine hu _
      · exact manages_push (manages_connectTcp hu _ _) releases_pure fun socket =>
          releases_fetchFrom hu w socket _ _ _
  · exact releases_putLine hu _

/-- The child reports and exits; nothing it does returns. -/
theorem abandons_runChild {α : Type} (path : Bytes) (argv : List Bytes) :
    descriptors.Abandons use (runChild path argv : Sys α) := by
  refine abandons_bind (releases_status (plain_of_nil rfl (fun _ => rfl) rfl) fun _ => rfl)
    fun _ => ?_
  apply abandons_bind (releases_printError hu _ _)
  intro _
  refine abandons_bind (releases_ask (plain_of_nil rfl (fun _ => rfl) rfl) fun _ => rfl)
    fun _ => ?_
  apply abandons_loop (fun _ => manages_after releases_ret fun _ => releases_ret)
  intro x t a hr
  obtain ⟨_, _, _, _, _, h⟩ := runs_bind.mp hr
  cases (runs_ret.mp h).2

omit hu in
theorem releases_sysWait4 (w : Word) (processId options : Nat) :
    descriptors.Releases use [] (sysWait4 w processId options) := by
  cases w with
  | rv32 =>
    refine manages_after (releases_ask (plain_of_nil rfl (fun _ => rfl) rfl) fun _ => rfl)
      fun r => ?_
    split
    · exact releases_pure
    · split <;> exact releases_pure
  | rv64 =>
    exact manages_after (releases_ask (plain_of_nil rfl (fun _ => rfl) rfl) fun _ => rfl)
      fun r => releases_pure

theorem releases_showStatus (waitStatus : Nat) :
    descriptors.Releases use [] (showStatus waitStatus) := by
  unfold showStatus
  split
  · apply manages_after (releases_putsRaw hu _)
    intro _
    exact manages_after (releases_printUnsigned hu _) fun _ => releases_putsRaw hu _
  · apply manages_after (releases_putsRaw hu _)
    intro _
    exact manages_after (releases_printUnsigned hu _) fun _ => releases_putsRaw hu _

theorem releases_runProgram (w : Word) (argv : List Bytes) :
    descriptors.Releases use [] (runProgram w argv) := by
  refine manages_fork (plain_of_nil rfl (fun _ => rfl) rfl) (fun r hr => ?_) fun r hr => ?_
  · have hzero : r.value = 0 := by simpa [descriptors, isChild] using hr
    rw [if_neg (by omega), if_pos hzero]
    exact abandons_runChild hu _ _
  · have hne : r.value ≠ 0 := by simpa [descriptors, isChild] using hr
    rw [if_neg hne]
    split
    · exact releases_printError hu _ _
    · apply manages_after (releases_sysWait4 w _ _)
      intro result
      obtain ⟨result, waitStatus⟩ := result
      dsimp only
      split
      · exact releases_printError hu _ _
      · exact releases_showStatus hu _

theorem releases_cmdRun (w : Word) (argv : List Bytes) :
    descriptors.Releases use [] (cmdRun w argv) := by
  unfold cmdRun
  split
  · exact releases_runProgram hu w _
  · exact releases_putLine hu _

end Transfer

/-! ## The command table -/

section Commands

variable {use : Finset Nat} (hu : standard ⊆ use)

theorem releases_plain {c : Call} (huses : usedBy c = []) (hgets : ∀ r, obtainedBy c r = none)
    (hdrops : closedBy c = none) (hchild : ∀ r, isChild c r = false) :
    descriptors.Releases use [] (status c) :=
  releases_status (plain_of_nil huses hgets hdrops) hchild

theorem releases_mountDefaults : descriptors.Releases use [] mountDefaults := by
  apply manages_after (releases_plain rfl (fun _ => rfl) rfl fun _ => rfl)
  intro _
  apply manages_after (releases_plain rfl (fun _ => rfl) rfl fun _ => rfl)
  intro _
  apply manages_after (releases_plain rfl (fun _ => rfl) rfl fun _ => rfl)
  intro _
  apply manages_after (releases_plain rfl (fun _ => rfl) rfl fun _ => rfl)
  intro _
  apply manages_after (releases_plain rfl (fun _ => rfl) rfl fun _ => rfl)
  intro _
  exact manages_after (releases_plain rfl (fun _ => rfl) rfl fun _ => rfl) fun _ => releases_pure

include hu

/-- A call without descriptors, reported when it fails. -/
theorem releases_report {c : Call} (command : Bytes) (target : Option Bytes)
    (hc : descriptors.Releases use [] (status c)) :
    descriptors.Releases use [] (do
      let result ← status c
      if result < 0 then printError command target else pure ()) := by
  apply manages_after hc
  intro result
  split
  · exact releases_printError hu _ _
  · exact releases_pure

theorem releases_cmdHelp (argv : List Bytes) : descriptors.Releases use [] (cmdHelp argv) := by
  apply manages_after (releases_putLine hu _)
  intro _
  exact manages_after (releases_putLine hu _) fun _ => releases_putLine hu _

theorem releases_cmdEcho (argv : List Bytes) : descriptors.Releases use [] (cmdEcho argv) := by
  refine manages_after ?_ fun _ => releases_putsRaw hu _
  split
  · exact releases_pure
  · apply manages_after (releases_putsRaw hu _)
    intro _
    exact releases_forEach fun _ =>
      manages_after (releases_putsRaw hu _) fun _ => releases_putsRaw hu _

theorem releases_cmdPwd (argv : List Bytes) : descriptors.Releases use [] (cmdPwd argv) := by
  refine manages_after (releases_ask (plain_of_nil rfl (fun _ => rfl) rfl) fun _ => rfl)
    fun r => ?_
  split
  · exact releases_printError hu _ _
  · exact releases_putLine hu _

theorem releases_cmdCd (argv : List Bytes) : descriptors.Releases use [] (cmdCd argv) :=
  releases_report hu _ _ (releases_plain rfl (fun _ => rfl) rfl fun _ => rfl)

theorem releases_entryTurn (r : Reply) (offset : Nat) :
    descriptors.Releases use [] (entryTurn r offset) := by
  rw [entryTurn]
  split
  · apply manages_after (releases_putsRaw hu _)
    intro _
    refine manages_after ?_ fun _ => manages_after (releases_putsRaw hu _) fun _ => releases_pure
    split
    · exact releases_putsRaw hu _
    · exact releases_pure
  · exact releases_pure

theorem releases_lsTurn {fd : Nat} (hfd : fd ∈ use) (path : Bytes) :
    descriptors.Releases use [] (lsTurn fd path ()) := by
  refine manages_after (releases_ask (plain_of_mem rfl (fun _ => rfl) rfl hfd) fun _ => rfl)
    fun r => ?_
  split
  · refine manages_after ?_ fun _ => releases_pure
    split
    · exact releases_printError hu _ _
    · exact releases_pure
  · exact manages_after (releases_loop fun offset => releases_entryTurn hu r offset)
      fun _ => releases_pure

theorem releases_cmdLs (argv : List Bytes) : descriptors.Releases use [] (cmdLs argv) := by
  refine manages_push (manages_openat _ _ _) (releases_printError hu _ _) fun fd => ?_
  have hu' := standard_stacked hu [fd]
  refine manages_after (releases_loop fun _ => releases_lsTurn hu' (Finset.mem_insert_self _ _) _)
    fun _ => ?_
  exact manages_after (releases_putsRaw hu' _) fun _ => releases_close hu fd

omit hu in
theorem releases_copyLoop {source sink : Nat} (hsource : source ∈ use) (hsink : sink ∈ use) :
    descriptors.Releases use [] (copyLoop source sink) :=
  releases_of_calls (calls_copyLoop (harmless_read hsource) (harmless_write hsink))

theorem releases_catFile (path : Bytes) : descriptors.Releases use [] (catFile path) := by
  refine manages_push (manages_openat _ _ _) (releases_printError hu _ _) fun fd => ?_
  have hu' := standard_stacked hu [fd]
  refine manages_after (releases_copyLoop (Finset.mem_insert_self _ _) (hu' (by decide)))
    fun ended => ?_
  refine manages_after ?_ fun _ => releases_close hu fd
  split
  · exact releases_printError hu' _ _
  · exact releases_pure

theorem releases_cmdCat (argv : List Bytes) : descriptors.Releases use [] (cmdCat argv) := by
  unfold cmdCat
  split
  · exact releases_putLine hu _
  · exact releases_forEach fun path => releases_catFile hu path

theorem releases_cpReport (sourcePath destPath : Bytes) (ended : CopyEnd) :
    descriptors.Releases use [] (cpReport sourcePath destPath ended) := by
  cases ended with
  | eof => exact releases_pure
  | unreadable => exact releases_printError hu (ascii "cp") (some sourcePath)
  | unwritable => exact releases_printError hu (ascii "cp") (some destPath)

theorem releases_cpOn (source destination : Nat) (sourcePath destPath : Bytes) :
    descriptors.Releases use [destination, source]
      (cpOn source destination sourcePath destPath) := by
  have hu' := standard_stacked hu [destination, source]
  refine manages_after (releases_copyLoop ?_ ?_) fun ended => ?_
  · simp
  · simp
  · apply manages_after (releases_cpReport hu' _ _ ended)
    intro _
    exact manages_pop (releases_close (standard_stacked hu [source]) destination)
      fun _ => releases_close hu source

theorem releases_cmdCp (argv : List Bytes) : descriptors.Releases use [] (cmdCp argv) := by
  unfold cmdCp
  split
  · refine manages_push (manages_openat _ _ _) (releases_printError hu _ _) fun source => ?_
    refine manages_push (manages_openat _ _ _) ?_ fun destination => ?_
    · exact manages_after (releases_printError (standard_stacked hu [source]) _ _)
        fun _ => releases_close hu source
    · exact releases_cpOn hu source destination _ _
  · exact releases_putLine hu _

theorem releases_cmdTouch (argv : List Bytes) : descriptors.Releases use [] (cmdTouch argv) := by
  unfold cmdTouch
  split
  · exact releases_putLine hu _
  · apply releases_forEach
    intro path
    exact manages_push (manages_openat _ _ _) (releases_printError hu _ _) fun fd =>
      releases_close hu fd

theorem releases_onArgument (name : Bytes) (argv : List Bytes) (c : Bytes → Call)
    (hc : ∀ path, descriptors.Releases use [] (status (c path))) :
    descriptors.Releases use [] (onArgument name argv c) := by
  unfold onArgument
  split
  · exact releases_report hu _ _ (hc _)
  · exact releases_printError hu _ _

theorem releases_cmdMkdir (argv : List Bytes) : descriptors.Releases use [] (cmdMkdir argv) :=
  releases_onArgument hu _ _ _ fun _ => releases_plain rfl (fun _ => rfl) rfl fun _ => rfl

theorem releases_cmdRemove (argv : List Bytes) : descriptors.Releases use [] (cmdRemove argv) :=
  releases_onArgument hu _ _ _ fun _ => releases_plain rfl (fun _ => rfl) rfl fun _ => rfl

theorem releases_cmdMount (argv : List Bytes) : descriptors.Releases use [] (cmdMount argv) := by
  unfold cmdMount
  split
  · exact manages_after releases_mountDefaults fun _ => releases_putLine hu _
  · exact releases_report hu _ _ (releases_plain rfl (fun _ => rfl) rfl fun _ => rfl)
  · exact releases_putLine hu _

omit hu in
theorem releases_cmdSync (argv : List Bytes) : descriptors.Releases use [] (cmdSync argv) :=
  manages_after (releases_ask (plain_of_nil rfl (fun _ => rfl) rfl) fun _ => rfl)
    fun _ => releases_pure

theorem releases_cmdUname (argv : List Bytes) : descriptors.Releases use [] (cmdUname argv) := by
  refine manages_after (releases_ask (plain_of_nil rfl (fun _ => rfl) rfl) fun _ => rfl)
    fun r => ?_
  split
  · exact releases_printError hu _ _
  · split
    · exact releases_putLine hu _
    · split
      · refine manages_after (releases_forEach fun _ => ?_) fun _ => releases_putLine hu _
        exact manages_after (releases_putsRaw hu _) fun _ => releases_putsRaw hu _
      · exact releases_putLine hu _
    · exact releases_putLine hu _

theorem releases_getSysinfo : descriptors.Releases use [] getSysinfo := by
  refine manages_after (releases_ask (plain_of_nil rfl (fun _ => rfl) rfl) fun _ => rfl)
    fun r => ?_
  split
  · exact manages_after (releases_printError hu _ _) fun _ => releases_pure
  · exact releases_pure

theorem releases_cmdUptime (w : Word) (argv : List Bytes) :
    descriptors.Releases use [] (cmdUptime w argv) := by
  refine manages_after (releases_getSysinfo hu) fun info => ?_
  split
  · exact releases_pure
  · apply manages_after (releases_putsRaw hu _)
    intro _
    apply manages_after (releases_printUnsigned hu _)
    intro _
    apply manages_after (releases_putsRaw hu _)
    intro _
    apply manages_after (releases_printUnsigned hu _)
    intro _
    apply manages_after (releases_putsRaw hu _)
    intro _
    apply manages_after (releases_printUnsigned hu _)
    intro _
    apply manages_after (releases_putsRaw hu _)
    intro _
    exact manages_after (releases_printUnsigned hu _) fun _ => releases_putLine hu _

theorem releases_printMemoryLine (label : Bytes) (value unit : Nat) :
    descriptors.Releases use [] (printMemoryLine label value unit) := by
  apply manages_after (releases_putsRaw hu _)
  intro _
  exact manages_after (releases_printU64 hu _) fun _ => releases_putLine hu _

theorem releases_cmdFree (w : Word) (argv : List Bytes) :
    descriptors.Releases use [] (cmdFree w argv) := by
  refine manages_after (releases_getSysinfo hu) fun info => ?_
  split
  · exact releases_pure
  · apply manages_after (releases_printMemoryLine hu _ _ _)
    intro _
    apply manages_after (releases_printMemoryLine hu _ _ _)
    intro _
    apply manages_after (releases_printMemoryLine hu _ _ _)
    intro _
    exact releases_printMemoryLine hu _ _ _

theorem releases_cmdSleep (w : Word) (argv : List Bytes) :
    descriptors.Releases use [] (cmdSleep w argv) := by
  unfold cmdSleep
  split
  · split
    · exact releases_putLine hu _
    · exact releases_report hu _ _ (releases_plain rfl (fun _ => rfl) rfl fun _ => rfl)
  · exact releases_putLine hu _

theorem releases_restart (name : String) (command : Nat) :
    descriptors.Releases use [] (restart name command) :=
  manages_after (releases_plain rfl (fun _ => rfl) rfl fun _ => rfl)
    fun _ => releases_printError hu _ _

/-- Every entry of the command table gives back what it takes. -/
theorem releases_commands (w : Word) :
    ∀ command ∈ commands w, ∀ argv, descriptors.Releases use [] (command.2 argv) := by
  intro command hmem argv
  simp only [commands, List.mem_cons, List.not_mem_nil, or_false] at hmem
  rcases hmem with rfl | rfl | rfl | rfl | rfl | rfl | rfl | rfl | rfl | rfl | rfl | rfl | rfl |
    rfl | rfl | rfl | rfl | rfl | rfl | rfl | rfl | rfl | rfl | rfl | rfl | rfl
  · exact releases_cmdHelp hu argv
  · exact releases_cmdEcho hu argv
  · exact releases_cmdPwd hu argv
  · exact releases_cmdCd hu argv
  · exact releases_cmdLs hu argv
  · exact releases_cmdCat hu argv
  · exact releases_cmdCp hu argv
  · exact releases_cmdTouch hu argv
  · exact releases_cmdMkdir hu argv
  · exact releases_cmdRemove hu argv
  · exact releases_cmdRemove hu argv
  · exact releases_cmdMount hu argv
  · exact releases_cmdSync argv
  · exact releases_cmdUname hu argv
  · exact releases_cmdUptime hu w argv
  · exact releases_cmdFree hu w argv
  · exact releases_cmdSleep hu w argv
  · exact releases_cmdIfconfig hu argv
  · exact releases_cmdPing hu argv
  · exact releases_cmdNc hu w argv
  · exact releases_cmdFetch hu w argv
  · exact releases_cmdRun hu w argv
  · exact releases_putsRaw hu _
  · exact releases_restart hu _ _
  · exact releases_restart hu _ _
  · exact releases_putLine hu _

theorem releases_runCommand (w : Word) (argv : List Bytes) :
    descriptors.Releases use [] (runCommand w argv) := by
  unfold runCommand
  split
  · exact releases_pure
  · split
    · rename_i command hfound
      exact releases_commands hu w command (List.mem_of_find?_eq_some hfound) _
    · split
      · exact releases_runProgram hu w _
      · exact manages_after (releases_putsRaw hu _) fun _ => releases_putLine hu _

theorem releases_shellTurn (w : Word) : descriptors.Releases use [] (shellTurn w) := by
  apply manages_after (releases_putsRaw hu _)
  intro _
  apply manages_after (releases_readLine hu _)
  intro line
  split
  · exact releases_putsRaw hu _
  · exact releases_runCommand hu w _

theorem releases_startUp : descriptors.Releases use [] startUp :=
  manages_after releases_mountDefaults fun _ => releases_putLine hu _

end Commands

/-! ## Sessions -/

/-- What is open after the calls of the trace. -/
def openAfter (held : Finset Nat) (t : Trace Call Reply) : Finset Nat :=
  (descriptors.monitor.after ⟨held, false⟩ t).handles

/-- The kernel hands out descriptors that are not open; a reply is otherwise
free. -/
def FreshDescriptors (held : Finset Nat) (t : Trace Call Reply) : Prop :=
  descriptors.monitor.Follows ⟨held, false⟩ t

/-- The shell up to its prompt number `n`, counted from 0. -/
def rounds (w : Word) : Nat → Sys Unit
  | 0 => startUp
  | n + 1 => .bind (rounds w n) fun _ => shellTurn w

theorem releases_rounds (w : Word) (n : Nat) :
    descriptors.Releases standard [] (rounds w n) := by
  induction n with
  | zero => exact releases_startUp (Finset.Subset.refl _)
  | succ n ih => exact manages_after ih fun _ => releases_shellTurn (Finset.Subset.refl _) w

/-- Whatever the shell does is part of its start or of a turn after a prompt. -/
theorem makes_start {α : Type} {w : Word} {t : Trace Call Reply} {c : Call}
    (h : Makes (start w : Sys α) t c) :
    Makes startUp t c ∨
      ∃ n u v, t = u ++ v ∧ Runs (rounds w n) u () ∧ Makes (shellTurn w) v c := by
  have hloop : ∀ {x : Unit} {v : Trace Call Reply} {c : Call},
      Makes (.loop (fun _ => .bind (shellTurn w) fun _ => .ret (.inl ())) x : Sys α) v c →
      ∀ n u, Runs (rounds w n) u () → ∃ n' u' v', u ++ v = u' ++ v' ∧ Runs (rounds w n') u' () ∧
        Makes (shellTurn w) v' c := by
    intro x v c h
    refine makes_induction (motive := fun _ v c => ∀ n u, Runs (rounds w n) u () →
      ∃ n' u' v', u ++ v = u' ++ v' ∧ Runs (rounds w n') u' () ∧ Makes (shellTurn w) v' c)
      ?_ ?_ h
    · intro _ v c hmade n u hu
      cases hmade with
      | first hmade => exact ⟨n, u, v, rfl, hu, hmade⟩
      | second _ hmade => cases hmade
    · intro _ _ v v' c hturn ih n u hu
      obtain ⟨v₁, v₂, _, rfl, hv₁, hv₂⟩ := runs_bind.mp hturn
      obtain ⟨rfl, _⟩ := runs_ret.mp hv₂
      rw [List.append_nil, ← List.append_assoc]
      exact ih (n + 1) (u ++ v₁) (.bind hu hv₁)
  cases h with
  | first h => exact .inl h
  | second hstart h =>
    obtain ⟨n, u, v, huv, hu, hv⟩ := hloop h 0 _ hstart
    exact .inr ⟨n, u, v, huv, hu, hv⟩

/-- The commands close each descriptor they get exactly once, use open ones
only, spare the standard ones and return in the shell's own process only, so
PID 1 has the same descriptors open at every prompt. -/
theorem descriptors_restored (w : Word) :
    (∀ (argv : List Bytes) (held : Finset Nat), standard ⊆ held →
      (∀ t c, Makes (runCommand w argv) t c → FreshDescriptors held t →
        (∀ fd ∈ usedBy c, fd ∈ openAfter held t) ∧ ∀ fd ∈ standard, closedBy c ≠ some fd) ∧
      ∀ t, Runs (runCommand w argv) t () → FreshDescriptors held t →
        openAfter held t = held ∧
        (∀ fd, descriptors.timesGot fd t = descriptors.timesDropped fd t) ∧
        ∀ e ∈ t, isChild e.1 e.2 = false) ∧
    ∀ n t, Runs (rounds w n) t () → FreshDescriptors standard t →
      openAfter standard t = standard := by
  refine ⟨fun argv held hheld => ⟨fun t c hm hf => ?_, fun t hr hf => ?_⟩, fun n t hr hf => ?_⟩
  · have hrel := releases_runCommand (Finset.Subset.refl _) w argv
    obtain ⟨huses, hdrops⟩ := (hrel ⟨held, false⟩ hheld trivial).calls hm hf
    exact ⟨huses, fun fd hfd hc => (hdrops fd hc).2 hfd⟩
  · obtain ⟨hafter, htimes, hchild⟩ :=
      (releases_runCommand (Finset.Subset.refl _) w argv).run hheld hr hf
    exact ⟨congrArg Held.handles hafter, htimes, hchild⟩
  · obtain ⟨hafter, _⟩ := (releases_rounds w n).run (Finset.Subset.refl _) hr hf
    exact congrArg Held.handles hafter

instance (held : Finset Nat) (t : Trace Call Reply) : Decidable (FreshDescriptors held t) :=
  inferInstanceAs (Decidable (descriptors.monitor.Follows ⟨held, false⟩ t))

/-- `touch x`, and an empty line typed at a console that shows nothing. -/
theorem touch_restores_descriptors :
    (∃ t, Runs (runCommand .rv32 [ascii "touch", ascii "x"]) t () ∧
      3 ∈ openAfter standard (t.take 1) ∧ openAfter standard t = standard) ∧
    ∃ t, Runs (rounds .rv32 1) t () ∧ openAfter standard t = standard := by
  constructor
  · obtain ⟨t, _, hr, hf, h3⟩ : ∃ t a, Runs (runCommand .rv32 [ascii "touch", ascii "x"]) t a ∧
        FreshDescriptors standard t ∧ 3 ∈ openAfter standard (t.take 1) :=
      exists_runs_of_exec scripted 3 [⟨3, [], []⟩, ⟨0, [], []⟩] (by decide +kernel)
    have hrun := (descriptors_restored .rv32).1 [ascii "touch", ascii "x"] standard
      (Finset.Subset.refl _)
    exact ⟨t, hr, h3, (hrun.2 t hr hf).1⟩
  · obtain ⟨t, _, hr, hf⟩ : ∃ t a, Runs (rounds .rv32 1) t a ∧ FreshDescriptors standard t :=
      exists_runs_of_exec scripted 3 (List.replicate 9 ⟨-1, [], []⟩ ++ [⟨1, [lf], []⟩])
        (by decide +kernel)
    exact ⟨t, hr, (descriptors_restored .rv32).2 1 t hr hf⟩

end LinuxBuild.Payload
