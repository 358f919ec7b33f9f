import LinuxBuild.Writes

/-!
# `ping`

Every turn sends one request and reads at most one packet, whichever has
arrived on the raw socket. A reply line is printed when that packet looks like
an echo reply, not when it is one that answers the request of the turn.
-/

namespace LinuxBuild.Payload

open Interaction

/-! ## Packets -/

/-- The test of `cmd_ping` on a packet: room for an ICMP header, and type 0. -/
def looksLikeReply (packet : Bytes) : Bool :=
  packet ≠ [] && icmpOffset packet + 8 ≤ packet.length && packet.getD (icmpOffset packet) 0 = 0

/-- An IPv4 packet of protocol ICMP, sent by the address, that holds the echo
reply (type and code 0) with identifier 1 and the sequence number. -/
def isAnswer (address sequence : Nat) (packet : Bytes) : Bool :=
  let header := ((packet.getD 0 0).toNat &&& 0x0f) * 4
  (packet.getD 0 0).toNat >>> 4 = 4 && 20 ≤ header && header + 8 ≤ packet.length &&
    packet.getD 9 0 = 1 && (packet.drop 12).take 4 =
      [UInt8.ofNat address, UInt8.ofNat (address >>> 8), UInt8.ofNat (address >>> 16),
        UInt8.ofNat (address >>> 24)] &&
    (packet.drop header).take 2 = [0, 0] &&
    (packet.drop (header + 4)).take 4 =
      [0, 1, UInt8.ofNat (sequence >>> 8), UInt8.ofNat sequence]

/-- The packets read from the socket, with the number of requests sent before. -/
def deliveries : Nat → Trace Call Reply → List (Nat × Bytes)
  | _, [] => []
  | n, (c, r) :: t =>
    match c with
    | .sendto _ _ _ => deliveries (n + 1) t
    | .recvfrom _ _ => (n, r.bytes) :: deliveries n t
    | _ => deliveries n t

def requestsSent : Trace Call Reply → Nat
  | [] => 0
  | (c, _) :: t =>
    match c with
    | .sendto _ _ _ => requestsSent t + 1
    | _ => requestsSent t

theorem deliveries_append (n : Nat) (t u : Trace Call Reply) :
    deliveries n (t ++ u) = deliveries n t ++ deliveries (n + requestsSent t) u := by
  induction t generalizing n with
  | nil => rfl
  | cons e t ih =>
    obtain ⟨c, r⟩ := e
    cases c with
    | sendto fd bytes address =>
      simp only [List.cons_append, deliveries, ih, requestsSent]
      rw [Nat.add_assoc, Nat.add_comm 1]
    | recvfrom fd length => simp only [List.cons_append, deliveries, ih]; rfl
    | _ => exact ih n

/-- A stretch that only prints. -/
theorem deliveries_of_writes {t : Trace Call Reply} (h : ∀ e ∈ t, ∃ bytes, e.1 = .write 1 bytes)
    (n : Nat) : deliveries n t = [] ∧ requestsSent t = 0 := by
  induction t with
  | nil => exact ⟨rfl, rfl⟩
  | cons e t ih =>
    obtain ⟨c, r⟩ := e
    obtain ⟨bytes, rfl⟩ := h _ List.mem_cons_self
    exact ih fun e he => h e (List.mem_cons_of_mem _ he)

theorem isReply_eq {fd length : Nat} {r : Reply} (h : (Call.recvfrom fd length).allows r = true) :
    isReply r = looksLikeReply r.bytes := by
  simp only [Call.allows, Bool.and_eq_true, decide_eq_true_eq] at h
  have hlength : r.bytes.length = r.value.toNat := by
    rw [Reply.bytes, List.length_take]
    omega
  have hget : ∀ i, i < r.value.toNat → r.bytes.getD i 0 = r.data.getD i 0 := by
    intro i hi
    simp only [Reply.bytes, List.getD_eq_getElem?_getD, List.getElem?_take_of_lt hi]
  by_cases hpos : 0 < r.value
  · have hne : r.bytes ≠ [] := List.ne_nil_of_length_pos (by omega)
    have hoffset : icmpOffset r.bytes = icmpOffset r.data := by
      simp only [icmpOffset, hget 0 (by omega)]
    simp only [isReply, looksLikeReply, hpos, hne, ne_eq, not_false_iff, decide_true, Bool.true_and,
      hoffset, hlength]
    by_cases hroom : icmpOffset r.data + 8 ≤ r.value.toNat
    · rw [hget _ (by omega)]
    · simp only [hroom, decide_false, Bool.false_and]
  · have hnil : r.bytes = [] := by
      rw [Reply.bytes, Int.toNat_of_nonpos (by omega), List.take_zero]
    simp [isReply, looksLikeReply, hpos, hnil]

/-! ## Turns -/

/-- A turn of `cmd_ping` as its trace shows it, with the packet it printed a
reply line for. -/
inductive PingTurn (fd : Nat) (destination : SockaddrIn) (n : Nat) :
    Trace Call Reply → Option Bytes → Prop where
  | unsent {sent : Reply} {line : Trace Call Reply} (failed : sent.value < 0)
      (said : Runs (putLine (ascii "send failed")) line ()) :
      PingTurn fd destination n ((.sendto fd (echoRequest n).bytes destination, sent) :: line) none
  | timedOut {sent ready : Reply} {line : Trace Call Reply} (ok : 0 ≤ sent.value)
      (silent : ready.value ≤ 0) (said : Runs (timeoutLine n) line ()) :
      PingTurn fd destination n ((.sendto fd (echoRequest n).bytes destination, sent) ::
        (.ppoll [(fd, pollin)] (some 1), ready) :: line) none
  | invalid {sent ready r : Reply} {line : Trace Call Reply} (ok : 0 ≤ sent.value)
      (woken : 0 < ready.value) (rejected : looksLikeReply r.bytes = false)
      (said : Runs (putLine (ascii "invalid reply")) line ()) :
      PingTurn fd destination n ((.sendto fd (echoRequest n).bytes destination, sent) ::
        (.ppoll [(fd, pollin)] (some 1), ready) :: (.recvfrom fd 128, r) :: line) none
  | replied {sent ready r : Reply} {line : Trace Call Reply} (ok : 0 ≤ sent.value)
      (woken : 0 < ready.value) (taken : looksLikeReply r.bytes = true)
      (said : Runs (replyLine destination.address n) line ()) :
      PingTurn fd destination n ((.sendto fd (echoRequest n).bytes destination, sent) ::
        (.ppoll [(fd, pollin)] (some 1), ready) :: (.recvfrom fd 128, r) :: line) (some r.bytes)

/-- The turns of the sequence numbers, with the reply lines printed: the number
in the line and the packet it was printed for. -/
inductive PingTurns (fd : Nat) (destination : SockaddrIn) :
    List Nat → Trace Call Reply → List (Nat × Bytes) → Prop where
  | done : PingTurns fd destination [] [] []
  | turn {n : Nat} {ns : List Nat} {t u : Trace Call Reply} {counted : Option Bytes}
      {lines : List (Nat × Bytes)} (first : PingTurn fd destination n t counted)
      (rest : PingTurns fd destination ns u lines) :
      PingTurns fd destination (n :: ns) (t ++ u) (counted.toList.map (n, ·) ++ lines)

/-- A line, then a result that it does not depend on. -/
theorem runs_then_ret {α : Type} {p : Sys Unit} {b a : α} {t : Trace Call Reply}
    (h : Runs (.bind p fun _ => .ret b) t a) : Runs p t () ∧ a = b := by
  obtain ⟨u, v, _, rfl, hu, hv⟩ := runs_bind.mp h
  obtain ⟨rfl, rfl⟩ := runs_ret.mp hv
  rw [List.append_nil]
  exact ⟨hu, rfl⟩

theorem pingTurn_cases {fd n : Nat} {destination : SockaddrIn} {t : Trace Call Reply}
    {counted : Bool} (h : Runs (pingTurn fd destination n) t counted) (hl : Legal t) :
    ∃ packet, PingTurn fd destination n t packet ∧ counted = packet.isSome := by
  obtain ⟨sent, u, rfl, hu⟩ := runs_status_bind.mp h
  split at hu
  · obtain ⟨hline, rfl⟩ := runs_then_ret hu
    exact ⟨none, .unsent (by assumption) hline, rfl⟩
  · rename_i hsent
    obtain ⟨ready, v, rfl, hv⟩ := runs_status_bind.mp hu
    split at hv
    · obtain ⟨hline, rfl⟩ := runs_then_ret hv
      exact ⟨none, .timedOut (by omega) (by assumption) hline, rfl⟩
    · rename_i hready
      obtain ⟨r, line, rfl, hline⟩ := runs_ask_bind.mp hv
      have hallows : (Call.recvfrom fd 128).allows r = true := hl (.recvfrom fd 128, r) (by simp)
      rw [isReply_eq hallows] at hline
      split at hline
      · obtain ⟨hsaid, rfl⟩ := runs_then_ret hline
        exact ⟨some r.bytes, .replied (by omega) (by omega) (by assumption) hsaid, rfl⟩
      · rename_i hlooks
        obtain ⟨hsaid, rfl⟩ := runs_then_ret hline
        exact ⟨none, .invalid (by omega) (by omega) (Bool.eq_false_iff.mpr hlooks) hsaid, rfl⟩

theorem pingTurns_cases {fd : Nat} {destination : SockaddrIn} {ns : List Nat} {received k : Nat}
    {t : Trace Call Reply} (h : Runs (pingTurns fd destination ns received) t k) (hl : Legal t) :
    ∃ lines, PingTurns fd destination ns t lines ∧ k = received + lines.length := by
  induction ns generalizing received t with
  | nil =>
    obtain ⟨rfl, rfl⟩ := runs_ret.mp h
    exact ⟨[], .done, rfl⟩
  | cons n ns ih =>
    obtain ⟨u, v, counted, rfl, hu, hv⟩ := runs_bind.mp h
    obtain ⟨packet, hturn, rfl⟩ := pingTurn_cases hu (legal_append.mp hl).1
    obtain ⟨lines, hlines, rfl⟩ := ih hv (legal_append.mp hl).2
    refine ⟨_, .turn hturn hlines, ?_⟩
    cases packet with
    | none => simp
    | some packet =>
      simp only [Option.isSome_some, if_true, Option.toList_some, List.map_cons, List.map_nil,
        List.length_append, List.length_cons, List.length_nil]
      omega

/-! ## The packets behind the lines -/

/-- The calls of a stretch that only prints. -/
theorem writes_of_runs {α : Type} {p : Sys α} {t : Trace Call Reply} {a : α}
    (h : CallsOnly (fun c => ∃ bytes, c = .write 1 bytes) p) (hr : Runs p t a) (n : Nat) :
    deliveries n t = [] ∧ requestsSent t = 0 :=
  deliveries_of_writes (h.of_runs hr) n

theorem deliveries_pingTurn {fd n : Nat} {destination : SockaddrIn} {t : Trace Call Reply}
    {packet : Option Bytes} (h : PingTurn fd destination (n + 1) t packet) :
    requestsSent t = 1 ∧
      (deliveries n t).filter (fun p => looksLikeReply p.2) = packet.toList.map (n + 1, ·) := by
  have hwrite : ∀ bytes, ∃ bytes', Call.write 1 bytes = .write 1 bytes' := fun bytes => ⟨bytes, rfl⟩
  cases h with
  | unsent failed said =>
    obtain ⟨hnone, hsent⟩ := writes_of_runs (calls_putLine hwrite _) said (n + 1)
    refine ⟨congrArg (· + 1) hsent, ?_⟩
    show (deliveries (n + 1) _).filter _ = []
    rw [hnone, List.filter_nil]
  | @timedOut sent ready line ok silent said =>
    obtain ⟨hnone, hsent⟩ := writes_of_runs (calls_timeoutLine hwrite _) said (n + 1)
    refine ⟨congrArg (· + 1) hsent, ?_⟩
    show (deliveries (n + 1) line).filter _ = []
    rw [hnone, List.filter_nil]
  | @invalid sent ready r line ok woken rejected said =>
    obtain ⟨hnone, hsent⟩ := writes_of_runs (calls_putLine hwrite _) said (n + 1)
    refine ⟨congrArg (· + 1) hsent, ?_⟩
    show ((n + 1, r.bytes) :: deliveries (n + 1) line).filter _ = []
    rw [hnone, List.filter_cons_of_neg (by rw [rejected]; decide), List.filter_nil]
  | @replied sent ready r line ok woken taken said =>
    obtain ⟨hnone, hsent⟩ := writes_of_runs (calls_replyLine hwrite _ _) said (n + 1)
    refine ⟨congrArg (· + 1) hsent, ?_⟩
    show ((n + 1, r.bytes) :: deliveries (n + 1) line).filter _ = [(n + 1, r.bytes)]
    rw [hnone, List.filter_cons, if_pos taken, List.filter_nil]

/-- The reply lines are the packets that look like replies. -/
theorem lines_eq {fd n k : Nat} {destination : SockaddrIn} {t : Trace Call Reply}
    {lines : List (Nat × Bytes)} (h : PingTurns fd destination (List.range' (n + 1) k) t lines) :
    lines = (deliveries n t).filter fun p => looksLikeReply p.2 := by
  induction k generalizing n t lines with
  | zero =>
    cases h
    rfl
  | succ k ih =>
    rw [List.range'_succ] at h
    cases h with
    | turn first rest =>
      obtain ⟨hsent, hfirst⟩ := deliveries_pingTurn first
      rw [deliveries_append, List.filter_append, hfirst, hsent, ih rest]

theorem lines_numbers {fd : Nat} {destination : SockaddrIn} {ns : List Nat} {t : Trace Call Reply}
    {lines : List (Nat × Bytes)} (h : PingTurns fd destination ns t lines) :
    (lines.map Prod.fst).Sublist ns := by
  induction h with
  | done => exact List.Sublist.refl _
  | turn first rest ih =>
    rename_i counted _
    cases counted with
    | none => exact ih.cons _
    | some packet => exact ih.cons_cons _

/-! ## The command -/

/-- A complete run of `cmd_ping` with the reply lines it printed; the number of
replies it prints at the end is the number of these lines. -/
inductive Pinged (host : Bytes) (address : Nat) :
    Trace Call Reply → List (Nat × Bytes) → Prop where
  | noSocket {r : Reply} {line : Trace Call Reply} (failed : r.value < 0)
      (said : Runs (printError (ascii "ping") (some (ascii "raw socket"))) line ()) :
      Pinged host address ((.socket afInet sockRaw ipprotoIcmp, r) :: line) []
  | finished {r : Reply} {header turns summary : Trace Call Reply} {lines : List (Nat × Bytes)}
      (opened : 0 ≤ r.value)
      (greeted : Runs (do putsRaw (ascii "PING "); putLine host) header ())
      (rounds : PingTurns r.value.toNat ⟨afInet, 0, address⟩ [1, 2, 3] turns lines)
      (summed : Runs (do
        printUnsigned lines.length
        putLine (ascii "/3 replies")
        sysClose r.value.toNat) summary ()) :
      Pinged host address ((.socket afInet sockRaw ipprotoIcmp, r) :: (header ++ (turns ++ summary)))
        lines

theorem cmdPing_cases {name host : Bytes} {address : Nat} {t : Trace Call Reply}
    (haddress : parseIpv4 host = some address) (h : Runs (cmdPing [name, host]) t ())
    (hl : Legal t) : ∃ lines, Pinged host address t lines := by
  rw [cmdPing, haddress] at h
  obtain ⟨u, v, socket, rfl, hu, hv⟩ := runs_bind.mp h
  obtain ⟨r, w, rfl, hw⟩ := runs_ask_bind.mp hu
  obtain ⟨rfl, rfl⟩ := runs_ret.mp hw
  by_cases hfd : r.value < 0
  · rw [Reply.descriptor, if_pos hfd] at hv
    exact ⟨[], .noSocket hfd hv⟩
  · rw [Reply.descriptor, if_neg hfd] at hv
    obtain ⟨u₁, v₁, _, rfl, hu₁, hv₁⟩ := runs_bind.mp hv
    obtain ⟨u₂, v₂, _, rfl, hu₂, hv₂⟩ := runs_bind.mp hv₁
    obtain ⟨turns, summary, k, rfl, hturns, hsummary⟩ := runs_bind.mp hv₂
    have hlturns := (legal_append.mp (legal_append.mp (legal_append.mp (legal_append.mp hl).2).2).2).1
    obtain ⟨lines, hlines, rfl⟩ := pingTurns_cases hturns hlturns
    rw [Nat.zero_add] at hsummary
    have : Pinged host address _ lines :=
      .finished (Int.not_lt.mp hfd) (.bind hu₁ hu₂) hlines hsummary
    exact ⟨lines, by simpa only [List.append_assoc, List.singleton_append] using this⟩

/-- The requests of the run that the address answered. -/
def answered (address : Nat) (t : Trace Call Reply) : List Nat :=
  [1, 2, 3].filter fun n => (deliveries 0 t).any fun p => isAnswer address n p.2

theorem pinged_lines {host : Bytes} {address : Nat} {t : Trace Call Reply}
    {lines : List (Nat × Bytes)} (h : Pinged host address t lines) :
    lines = ((deliveries 0 t).filter fun p => looksLikeReply p.2) ∧
      (lines.map Prod.fst).Sublist [1, 2, 3] := by
  have hwrite : ∀ bytes, ∃ bytes', Call.write 1 bytes = .write 1 bytes' := fun bytes => ⟨bytes, rfl⟩
  cases h with
  | @noSocket r line failed said =>
    obtain ⟨hnone, _⟩ := writes_of_runs (calls_printError hwrite _ _) said 0
    refine ⟨?_, List.nil_sublist _⟩
    show [] = (deliveries 0 line).filter _
    rw [hnone, List.filter_nil]
  | @finished r header turns summary lines opened greeted rounds summed =>
    obtain ⟨hheader, hsent⟩ := writes_of_runs
      (.bind (calls_putsRaw hwrite _) fun _ => calls_putLine hwrite _) greeted 0
    have hsummary : deliveries (requestsSent turns) summary = [] := by
      obtain ⟨u₁, v₁, _, rfl, hu₁, hv₁⟩ := runs_bind.mp summed
      obtain ⟨u₂, v₂, _, rfl, hu₂, hv₂⟩ := runs_bind.mp hv₁
      obtain ⟨hnone₁, hsent₁⟩ := writes_of_runs (calls_printUnsigned hwrite _) hu₁
        (requestsSent turns)
      obtain ⟨hnone₂, hsent₂⟩ := writes_of_runs (calls_putLine hwrite _) hu₂ (requestsSent turns)
      obtain ⟨r', w, rfl, hw⟩ := runs_ask_bind.mp hv₂
      obtain ⟨rfl, _⟩ := runs_ret.mp hw
      rw [deliveries_append, hnone₁, hsent₁, Nat.add_zero, deliveries_append, hnone₂]
      rfl
    refine ⟨?_, lines_numbers rounds⟩
    show lines = (deliveries 0 (header ++ (turns ++ summary))).filter _
    rw [deliveries_append, hheader, hsent, deliveries_append, Nat.zero_add, Nat.zero_add, hsummary,
      List.append_nil, List.nil_append]
    exact lines_eq (n := 0) (k := 3) rounds

/-- Every complete run of `ping` prints its reply lines for packets it read, a
packet for each line. They are all answers to the requests they are printed for,
and no more of them than requests were answered, exactly when every packet of a
turn that looks like a reply answers the request of that turn. -/
theorem ping_lines_answered_iff {name host : Bytes} {address : Nat} {t : Trace Call Reply}
    (haddress : parseIpv4 host = some address) (h : Runs (cmdPing [name, host]) t ())
    (hl : Legal t) :
    (∃ lines, Pinged host address t lines) ∧ ∀ lines, Pinged host address t lines →
      lines.Sublist (deliveries 0 t) ∧
        (((∀ line ∈ lines, isAnswer address line.1 line.2 = true) ∧
            lines.length ≤ (answered address t).length) ↔
          ∀ p ∈ deliveries 0 t, looksLikeReply p.2 = true → isAnswer address p.1 p.2 = true) := by
  refine ⟨cmdPing_cases haddress h hl, fun lines hlines => ?_⟩
  obtain ⟨heq, hnumbers⟩ := pinged_lines hlines
  have hmem : ∀ p, p ∈ lines ↔ p ∈ deliveries 0 t ∧ looksLikeReply p.2 = true := by
    intro p
    rw [heq, List.mem_filter]
  refine ⟨by rw [heq]; exact List.filter_sublist, ?_⟩
  constructor
  · rintro ⟨hanswers, _⟩ p hp hlooks
    exact hanswers p ((hmem p).mpr ⟨hp, hlooks⟩)
  · intro hall
    have hanswers : ∀ line ∈ lines, isAnswer address line.1 line.2 = true := by
      intro line hline
      obtain ⟨hp, hlooks⟩ := (hmem line).mp hline
      exact hall line hp hlooks
    refine ⟨hanswers, ?_⟩
    have hkept : (lines.map Prod.fst).filter
        (fun n => (deliveries 0 t).any fun p => isAnswer address n p.2) = lines.map Prod.fst := by
      apply List.filter_eq_self.mpr
      intro n hn
      obtain ⟨line, hline, rfl⟩ := List.mem_map.mp hn
      exact List.any_eq_true.mpr ⟨line, ((hmem line).mp hline).1, hanswers line hline⟩
    calc lines.length = (lines.map Prod.fst).length := by rw [List.length_map]
      _ ≤ (answered address t).length := by
        rw [← hkept]
        exact (hnumbers.filter _).length_le

/-- An ICMP message of 24 bytes from 127.0.0.1 with identifier 1. -/
def loopbackPacket (type sequence : UInt8) : Bytes :=
  [0x45, 0, 0, 44, 0, 0, 0, 0, 64, 1, 0, 0, 127, 0, 0, 1, 127, 0, 0, 1] ++
    [type, 0, 0, 0, 0, 1, 0, sequence] ++ ascii "tiny" ++ List.replicate 12 0

/-- A kernel that takes what is printed or sent, and hands out the packets. -/
def pingKernel : List Bytes → Call → Reply × List Bytes
  | packets, .socket _ _ _ => (⟨3, [], []⟩, packets)
  | packets, .write _ bytes => (⟨bytes.length, [], []⟩, packets)
  | packets, .sendto _ bytes _ => (⟨bytes.length, [], []⟩, packets)
  | packets, .ppoll _ _ => (⟨packets.length, [], []⟩, packets)
  | packet :: packets, .recvfrom _ _ => (⟨packet.length, packet, []⟩, packets)
  | packets, _ => (⟨0, [], []⟩, packets)

/-- Two of three requests answered in time. -/
theorem ping_counts_two :
    ∃ t, Runs (cmdPing [ascii "ping", ascii "127.0.0.1"]) t () ∧
      ∃ lines, Pinged (ascii "127.0.0.1") 0x0100007f t lines ∧
        (∀ line ∈ lines, isAnswer 0x0100007f line.1 line.2 = true) ∧
        lines.length ≤ (answered 0x0100007f t).length := by
  have hexec : ((exec pingKernel 20 (cmdPing [ascii "ping", ascii "127.0.0.1"])
      [loopbackPacket 0 1, loopbackPacket 0 2]).any fun x => decide (Legal x.2.1 ∧
        deliveries 0 x.2.1 = [(1, loopbackPacket 0 1), (2, loopbackPacket 0 2)])) = true := by
    decide +kernel
  obtain ⟨t, _, hruns, hl, hd⟩ := exists_runs_of_exec pingKernel 20 _ (P := fun t => Legal t ∧
    deliveries 0 t = [(1, loopbackPacket 0 1), (2, loopbackPacket 0 2)]) hexec
  have haddress : parseIpv4 (ascii "127.0.0.1") = some 0x0100007f := by decide
  obtain ⟨⟨lines, hlines⟩, hall⟩ := ping_lines_answered_iff haddress hruns hl
  refine ⟨t, hruns, lines, hlines, (hall lines hlines).2.mpr ?_⟩
  rw [hd]
  decide

/-- `ping 127.0.0.1` reads its own first request in the first turn, and in the
second the answer to that request: it is counted for the second. -/
theorem late_reply_counted :
    ∃ t, Runs (cmdPing [ascii "ping", ascii "127.0.0.1"]) t () ∧ Legal t ∧
      deliveries 0 t = [(1, loopbackPacket 8 1), (2, loopbackPacket 0 1), (3, loopbackPacket 8 2)] ∧
      accepted 1 t = ascii ("PING 127.0.0.1\ninvalid reply\nreply from 127.0.0.1 seq=2\n" ++
        "invalid reply\n1/3 replies\n") ∧
      isAnswer 0x0100007f 1 (loopbackPacket 0 1) = true ∧
      isAnswer 0x0100007f 2 (loopbackPacket 0 1) = false := by
  have hexec : ((exec pingKernel 20 (cmdPing [ascii "ping", ascii "127.0.0.1"])
      [loopbackPacket 8 1, loopbackPacket 0 1, loopbackPacket 8 2, loopbackPacket 0 2]).any fun x =>
        decide (Legal x.2.1 ∧ deliveries 0 x.2.1 =
            [(1, loopbackPacket 8 1), (2, loopbackPacket 0 1), (3, loopbackPacket 8 2)] ∧
          accepted 1 x.2.1 =
            ascii ("PING 127.0.0.1\ninvalid reply\nreply from 127.0.0.1 seq=2\n" ++
              "invalid reply\n1/3 replies\n"))) = true := by
    decide +kernel
  obtain ⟨t, _, hruns, hl, hd, hsaid⟩ := exists_runs_of_exec pingKernel 20 _ (P := fun t => Legal t ∧
    deliveries 0 t = [(1, loopbackPacket 8 1), (2, loopbackPacket 0 1), (3, loopbackPacket 8 2)] ∧
      accepted 1 t = ascii ("PING 127.0.0.1\ninvalid reply\nreply from 127.0.0.1 seq=2\n" ++
        "invalid reply\n1/3 replies\n")) hexec
  exact ⟨t, hruns, hl, hd, hsaid, by decide, by decide⟩

end LinuxBuild.Payload
