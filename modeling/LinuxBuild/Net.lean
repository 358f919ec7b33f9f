import LinuxBuild.Stdio
import LinuxBuild.Transfer

/-!
# `payload/net.c`: ifconfig, ping and nc
-/

namespace LinuxBuild.Payload

open Interaction

/-! ## ifconfig -/

def siocgifflags : Nat := 0x8913
def siocgifaddr : Nat := 0x8915
def siocgifnetmask : Nat := 0x891b
def iffUp : Nat := 0x1
def iffRunning : Nat := 0x40

/-- `cstr_copy` into a buffer of `capacity` bytes. -/
def cstrCopy (capacity : Nat) (source : Bytes) : Bytes := source.take (capacity - 1)

/-- An address of the interface, if the request gives one. The reply holds the
`value` union of the `ifreq`. -/
def showAddress (fd request : Nat) (interface label : Bytes) : Sys Unit := do
  let r ← Prog.ask (.ioctl fd request (cstrCopy 16 interface))
  if r.value = 0 then do
    putsRaw label
    printIpv4 (r.u32 4)
    putsRaw (ascii "\n")
  else pure ()

/-- `cmd_ifconfig` with its socket open. -/
def ifconfigOn (fd : Nat) (interface : Bytes) : Sys Unit := do
  putsRaw interface
  let r ← Prog.ask (.ioctl fd siocgifflags (cstrCopy 16 interface))
  if r.value < 0 then do
    putsRaw (ascii ": not found\n")
    sysClose fd
  else do
    putsRaw (ascii ":")
    (if r.u16 0 &&& iffUp ≠ 0 then putsRaw (ascii " UP") else pure ())
    (if r.u16 0 &&& iffRunning ≠ 0 then putsRaw (ascii " RUNNING") else pure ())
    putsRaw (ascii "\n")
    showAddress fd siocgifaddr interface (ascii "  inet ")
    showAddress fd siocgifnetmask interface (ascii "  netmask ")
    sysClose fd

def cmdIfconfig (argv : List Bytes) : Sys Unit := do
  let interface := argv.getD 1 (ascii "eth0")
  match ← sysSocket afInet sockDgram 0 with
  | none => printError (ascii "ifconfig") (some (ascii "socket"))
  | some fd => ifconfigOn fd interface

/-! ## ping -/

/-- The bytes of a `u16` in memory. -/
def u16Bytes (value : Nat) : Bytes := [UInt8.ofNat value, UInt8.ofNat (value >>> 8)]

/-- `struct icmp_echo` as it lies in memory. -/
structure IcmpEcho where
  type : UInt8
  code : UInt8
  checksum : Nat
  identifier : Nat
  sequence : Nat
  payload : Bytes

def IcmpEcho.bytes (e : IcmpEcho) : Bytes :=
  [e.type, e.code] ++ u16Bytes e.checksum ++ u16Bytes e.identifier ++ u16Bytes e.sequence ++ e.payload

/-- The request of one turn, its checksum still zero. -/
def blankRequest (sequence : Nat) : IcmpEcho where
  type := 8
  code := 0
  checksum := 0
  identifier := hostToNetwork16 1
  sequence := hostToNetwork16 (sequence % 2 ^ 16)
  payload := ascii "tiny" ++ List.replicate 12 0

def echoRequest (sequence : Nat) : IcmpEcho :=
  { blankRequest sequence with checksum := internetChecksum (blankRequest sequence).bytes }

/-- Where the ICMP message starts in a packet: behind an IPv4 header. -/
def icmpOffset (packet : Bytes) : Nat :=
  let first := (packet.getD 0 0).toNat
  if first >>> 4 = 4 then (first &&& 0x0f) * 4 else 0

/-- The test of `cmd_ping` on what `recvfrom` returned and stored. -/
def isReply (r : Reply) : Bool :=
  0 < r.value && icmpOffset r.data + 8 ≤ r.value.toNat && r.data.getD (icmpOffset r.data) 0 = 0

def replyLine (address sequence : Nat) : Sys Unit := do
  putsRaw (ascii "reply from ")
  printIpv4 address
  putsRaw (ascii " seq=")
  printUnsigned sequence
  putsRaw (ascii "\n")

def timeoutLine (sequence : Nat) : Sys Unit := do
  putsRaw (ascii "timeout seq=")
  printUnsigned sequence
  putsRaw (ascii "\n")

/-- One turn of the loop of `cmd_ping`: whether it counts a reply. -/
def pingTurn (fd : Nat) (destination : SockaddrIn) (sequence : Nat) : Sys Bool := do
  let sent ← status (.sendto fd (echoRequest sequence).bytes destination)
  if sent < 0 then do
    putLine (ascii "send failed")
    pure false
  else do
    let ready ← status (.ppoll [(fd, pollin)] (some 1))
    if ready ≤ 0 then do
      timeoutLine sequence
      pure false
    else do
      let r ← Prog.ask (.recvfrom fd 128)
      if isReply r then do
        replyLine destination.address sequence
        pure true
      else do
        putLine (ascii "invalid reply")
        pure false

/-- The turns of the sequence numbers, with the replies counted so far. -/
def pingTurns (fd : Nat) (destination : SockaddrIn) : List Nat → Nat → Sys Nat
  | [], received => pure received
  | sequence :: rest, received => do
    let counted ← pingTurn fd destination sequence
    pingTurns fd destination rest (if counted then received + 1 else received)

/-- `cmd_ping` with its socket open. -/
def pingOn (fd : Nat) (destination : SockaddrIn) (name : Bytes) : Sys Unit := do
  putsRaw (ascii "PING ")
  putLine name
  let received ← pingTurns fd destination [1, 2, 3] 0
  printUnsigned received
  putLine (ascii "/3 replies")
  sysClose fd

def pingUsage : Sys Unit := putLine (ascii "usage: ping IPv4")

def cmdPing (argv : List Bytes) : Sys Unit :=
  match argv with
  | [_, host] =>
    match parseIpv4 host with
    | none => pingUsage
    | some address => do
      match ← sysSocket afInet sockRaw ipprotoIcmp with
      | none => printError (ascii "ping") (some (ascii "raw socket"))
      | some fd => pingOn fd ⟨afInet, 0, address⟩ host
  | _ => pingUsage

/-! ## nc -/

/-- A chunk of at most 512 bytes moved from one side to the other: the result
of `nc_relay`, if it ends here. -/
def pump (source sink : Nat) : Sys (Option Int) := do
  let r ← sysRead source 512
  if r.value ≤ 0 then pure (some 0)
  else do
    let written ← writeAll sink r.bytes
    pure (if written < 0 then some (-1) else none)

/-- One round of `nc_relay`. -/
def relayTurn (socket : Nat) (_ : Unit) : Sys (Unit ⊕ Int) := do
  let r ← Prog.ask (.ppoll [(0, pollin), (socket, pollin)] none)
  if r.value < 0 then pure (.inr (-1))
  else do
    let first ← (if r.revents.getD 1 0 &&& (pollin ||| pollhup ||| pollerr) ≠ 0 then pump socket 1
      else pure none)
    match first with
    | some result => pure (.inr result)
    | none => do
      let second ← (if r.revents.getD 0 0 &&& pollin ≠ 0 then pump 0 socket else pure none)
      match second with
      | some result => pure (.inr result)
      | none => pure (.inl ())

def ncRelay (socket : Nat) : Sys Int := .loop (relayTurn socket) ()

def ncError (target : String) : Sys Unit := printError (ascii "nc") (some (ascii target))

/-- The relay and its error report. -/
def relayOn (socket : Nat) : Sys Unit := do
  let result ← ncRelay socket
  if result < 0 then ncError "relay" else pure ()

def ncClient (host : Bytes) (port : Nat) : Sys Unit :=
  match parseIpv4 host with
  | none => putLine (ascii "nc: numeric IPv4 required")
  | some address => do
    match ← sysSocket afInet sockStream 0 with
    | none => ncError "socket"
    | some fd => do
      let connected ← status (.connect fd ⟨afInet, hostToNetwork16 (port % 2 ^ 16), address⟩)
      if connected < 0 then do
        ncError "connect"
        sysClose fd
      else do
        putsRaw (ascii "connected to ")
        printIpv4 address
        putsRaw (ascii ":")
        printUnsigned port
        putsRaw (ascii "\n")
        relayOn fd
        sysClose fd

/-- `nc_listen` with its listener bound. -/
def acceptOn (listener port : Nat) : Sys Unit := do
  putsRaw (ascii "listening on 0.0.0.0:")
  printUnsigned port
  putsRaw (ascii "\n")
  match ← sysAccept listener with
  | none => do
    ncError "accept"
    sysClose listener
  | some connection => do
    putLine (ascii "connection accepted")
    relayOn connection
    sysClose connection
    sysClose listener

def ncListen (port : Nat) : Sys Unit := do
  match ← sysSocket afInet sockStream 0 with
  | none => ncError "socket"
  | some listener => do
    let failed := do
      ncError "listen"
      sysClose listener
    let _ ← status (.setsockopt listener solSocket soReuseaddr 1)
    let bound ← status (.bind listener ⟨afInet, hostToNetwork16 (port % 2 ^ 16), 0⟩)
    if bound < 0 then failed
    else do
      let listening ← status (.listen listener 1)
      if listening < 0 then failed else acceptOn listener port

/-- The port check of `cmd_nc` and `cmd_fetch`. -/
def portOf (w : Word) (text : Bytes) : Option Nat :=
  (parseUnsigned w text).filter fun port => port ≠ 0 && port ≤ 65535

def cmdNc (w : Word) (argv : List Bytes) : Sys Unit :=
  match argv with
  | [_, host, text] =>
    if host = ascii "-l" then
      match portOf w text with
      | none => putLine (ascii "usage: nc -l PORT")
      | some port => ncListen port
    else
      match portOf w text with
      | some port => ncClient host port
      | none => putLine (ascii "usage: nc IPv4 PORT | nc -l PORT")
  | _ => putLine (ascii "usage: nc IPv4 PORT | nc -l PORT")

/-! ## What is called -/

section

variable {P : Call → Prop} (hP : ∀ bytes, P (.write 1 bytes))

theorem calls_pump {source sink : Nat} (hread : ∀ n, P (.read source n))
    (hwrite : ∀ bytes, P (.write sink bytes)) : CallsOnly P (pump source sink) := by
  refine .bind (.ask (hread 512)) fun r => .ite .ret ?_
  exact .bind (calls_writeAll hwrite _) fun _ => .ret

include hP

theorem calls_timeoutLine (sequence : Nat) : CallsOnly P (timeoutLine sequence) := by
  apply CallsOnly.bind (calls_putsRaw hP _)
  intro _
  exact .bind (calls_printUnsigned hP _) fun _ => calls_putsRaw hP _

theorem calls_replyLine (address sequence : Nat) : CallsOnly P (replyLine address sequence) := by
  apply CallsOnly.bind (calls_putsRaw hP _)
  intro _
  apply CallsOnly.bind (calls_printIpv4 hP _)
  intro _
  apply CallsOnly.bind (calls_putsRaw hP _)
  intro _
  exact .bind (calls_printUnsigned hP _) fun _ => calls_putsRaw hP _

theorem calls_relayOn {socket : Nat} (hpoll : P (.ppoll [(0, pollin), (socket, pollin)] none))
    (hread : ∀ fd n, fd = 0 ∨ fd = socket → P (.read fd n))
    (hwrite : ∀ bytes, P (.write socket bytes)) : CallsOnly P (relayOn socket) := by
  refine .bind (.loop fun x => ?_) fun result => .ite (calls_printError hP _ _) .ret
  refine .bind (.ask hpoll) fun r => .ite .ret ?_
  apply CallsOnly.bind (.ite (calls_pump (fun n => hread _ n (.inr rfl)) hP) .ret)
  intro first
  cases first with
  | some result => exact .ret
  | none =>
    apply CallsOnly.bind (.ite (calls_pump (fun n => hread _ n (.inl rfl)) hwrite) .ret)
    intro second
    cases second with
    | some result => exact .ret
    | none => exact .ret

end

end LinuxBuild.Payload
