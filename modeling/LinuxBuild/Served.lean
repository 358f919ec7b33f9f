import LinuxBuild.FetchLength
import LinuxBuild.FetchRun

/-!
# `fetch`, served by the kernel

In `Transfer` `cmd_fetch` computes the state it leaves the kernel in; in
`FetchRun` it is a program that goes on with any reply. Served by that kernel
the program leaves the state that is computed.
-/

namespace LinuxBuild.Payload

open Interaction

/-- A descriptor that was handed out, or an error. -/
def handedOut : Option Nat × Kernel → Reply × Kernel
  | (some fd, k) => (⟨fd, [], []⟩, k)
  | (none, k) => (⟨-1, [], []⟩, k)

def succeeded : Bool × Kernel → Reply × Kernel
  | (true, k) => (⟨0, [], []⟩, k)
  | (false, k) => (⟨-1, [], []⟩, k)

/-- The calls that `cmd_fetch` makes; any other is refused. Descriptor 1 is the
console, which takes every byte. -/
def serve (k : Kernel) : Call → Reply × Kernel
  | .read fd count =>
    let (value, bytes, k) := LinuxBuild.sysRead fd count k
    (⟨value, bytes, []⟩, k)
  | .write fd bytes =>
    if fd = 1 then (⟨bytes.length, [], []⟩, LinuxBuild.putsRaw bytes k)
    else
      let (value, k) := LinuxBuild.sysWrite fd bytes k
      (⟨value, [], []⟩, k)
  | .socket _ _ _ => handedOut (LinuxBuild.sysSocket k)
  | .connect fd peer => succeeded (sysConnect fd peer k)
  | .openat path flags _ =>
    if flags = oWronly ||| oCreat ||| oTrunc then handedOut (sysCreate path k)
    else (⟨-22, [], []⟩, k)
  | .fchmod fd _ => succeeded (sysFchmod fd k)
  | .close fd => (⟨0, [], []⟩, LinuxBuild.sysClose fd k)
  | .unlinkat path _ => (⟨0, [], []⟩, sysUnlinkat path k)
  | _ => (⟨-38, [], []⟩, k)

theorem yields_status {c : Call} {k : Kernel} :
    Yields serve k (status c) (serve k c).1.value (serve k c).2 :=
  .bind .ask .ret

theorem yields_sysClose (fd : Nat) (k : Kernel) :
    Yields serve k (sysClose fd) () (LinuxBuild.sysClose fd k) :=
  .bind .ask .ret

theorem handedOut_descriptor (x : Option Nat × Kernel) :
    (handedOut x).1.descriptor = x.1 ∧ (handedOut x).2 = x.2 := by
  obtain ⟨_ | fd, k⟩ := x
  · exact ⟨rfl, rfl⟩
  · exact ⟨if_neg (Int.not_lt.mpr (Int.natCast_nonneg fd)), rfl⟩

theorem succeeded_value (x : Bool × Kernel) :
    ((succeeded x).1.value < 0 ↔ x.1 = false) ∧ (succeeded x).2 = x.2 := by
  obtain ⟨_ | _, k⟩ := x
  · simp [succeeded]
  · simp [succeeded]

/-! ## Printing -/

theorem serve_write (k : Kernel) (bytes : Bytes) :
    serve k (.write 1 bytes) = (⟨bytes.length, [], []⟩, LinuxBuild.putsRaw bytes k) := rfl

theorem putsRaw_nil (k : Kernel) : LinuxBuild.putsRaw [] k = k := by simp [LinuxBuild.putsRaw]

theorem yields_putsRaw (text : Bytes) (k : Kernel) :
    Yields serve k (putsRaw text) () (LinuxBuild.putsRaw text k) :=
  yields_putsRaw_of LinuxBuild.putsRaw serve_write putsRaw_nil text k

theorem yields_putLine (text : Bytes) (k : Kernel) :
    Yields serve k (putLine text) () (LinuxBuild.putLine text k) :=
  .bind (yields_putsRaw text k) (yields_putsRaw (ascii "\n") _)

theorem yields_printError (command target : Bytes) (k : Kernel) :
    Yields serve k (printError command (some target)) ()
      (LinuxBuild.printError command target k) := by
  apply Yields.bind (yields_putsRaw _ _)
  apply Yields.bind (yields_putsRaw _ _)
  apply Yields.bind (.bind (yields_putsRaw _ _) (yields_putsRaw _ _))
  exact yields_putsRaw _ _

theorem yields_printDigits (digits : List Nat) (k : Kernel) :
    Yields serve k (printDigits digits) ()
      (LinuxBuild.putsRaw (digits.map fun d => UInt8.ofNat (48 + d)) k) := by
  apply yields_printDigits_of LinuxBuild.putsRaw serve_write putsRaw_nil
  intro a b k
  simp [LinuxBuild.putsRaw]

theorem yields_printU64 (value : Nat) (k : Kernel) :
    Yields serve k (printU64 value) () (LinuxBuild.printU64 value k) :=
  yields_printDigits _ k

/-! ## Reading and writing -/

theorem yields_writeLoop {fd fuel written : Nat} {rest : Bytes} (k : Kernel) (hfd : fd ≠ 1)
    (hf : rest.length ≤ fuel) :
    Yields serve k (.loop (writeTurn fd) (rest, written)) (writeLoop fuel fd rest written k).1
      (writeLoop fuel fd rest written k).2 := by
  induction fuel generalizing rest written k with
  | zero =>
    obtain rfl : rest = [] := List.length_eq_zero_iff.mp (Nat.le_zero.mp hf)
    exact .last .ret
  | succ fuel ih =>
    by_cases hr : rest = []
    · subst hr
      exact .last .ret
    · have hturn : Yields serve k (writeTurn fd (rest, written)) _ _ := yields_writeTurn hr
      simp only [serve, if_neg hfd] at hturn
      simp only [writeLoop, if_neg hr]
      by_cases hcount : (LinuxBuild.sysWrite fd rest k).1 ≤ 0
      · rw [if_pos hcount] at hturn ⊢
        exact .last hturn
      · rw [if_neg hcount] at hturn ⊢
        apply Yields.again hturn (ih _ _)
        rw [List.length_drop]
        omega

theorem yields_writeAll {fd : Nat} (bytes : Bytes) (k : Kernel) (hfd : fd ≠ 1) :
    Yields serve k (writeAll fd bytes) (LinuxBuild.writeAll fd bytes k).1
      (LinuxBuild.writeAll fd bytes k).2 :=
  yields_writeLoop k hfd (Nat.le_refl _)

theorem yields_writeEach {fd : Nat} (texts : List Bytes) (k : Kernel) (hfd : fd ≠ 1) :
    Yields serve k (writeEach fd texts) (LinuxBuild.writeEach fd texts k).1
      (LinuxBuild.writeEach fd texts k).2 := by
  induction texts generalizing k with
  | nil => exact .ret
  | cons text texts ih =>
    refine .bind (yields_writeAll text k hfd) ?_
    simp only [LinuxBuild.writeEach]
    by_cases hneg : (LinuxBuild.writeAll fd text k).1 < 0
    · rw [if_pos hneg, if_pos hneg]
      exact .ret
    · rw [if_neg hneg, if_neg hneg]
      exact ih _

theorem yields_sendRequest {fd : Nat} (host path : Bytes) (k : Kernel) (hfd : fd ≠ 1) :
    Yields serve k (sendRequest fd host path) (LinuxBuild.sendRequest fd host path k).1
      (LinuxBuild.sendRequest fd host path k).2 :=
  yields_writeEach _ k hfd

/-- A read counts what it stores, or stores nothing. -/
theorem sysRead_counts (fd count : Nat) (k : Kernel) :
    (LinuxBuild.sysRead fd count k).1 ≤ 0 ∨
      (LinuxBuild.sysRead fd count k).1 = (LinuxBuild.sysRead fd count k).2.1.length := by
  unfold LinuxBuild.sysRead
  split
  · left
    simp only
    omega
  · split
    · have := transfer_le k.answer count k.incoming.length
      right
      simp only [List.length_take]
      omega
    · rename_i i pos _
      have := transfer_le k.answer count ((k.files.data i).length - pos)
      right
      simp only [List.length_take, List.length_drop]
      omega
    · exact .inl (Int.le_refl 0)
    · exact .inl (Int.negSucc_le_zero 8)

theorem yields_readHeaderFrom {fd capacity room : Nat} {header : Bytes} (k : Kernel)
    (hroom : header.length + 1 + room = capacity) :
    Yields serve k (.loop (headerTurn fd capacity) header)
      (if (readHeaderFrom fd room header k).1 then some (readHeaderFrom fd room header k).2.1
        else none) (readHeaderFrom fd room header k).2.2 := by
  induction room generalizing header k with
  | zero =>
    apply Yields.last
    rw [headerTurn, if_neg (by omega)]
    exact .ret
  | succ room ih =>
    have hlength := LinuxBuild.sysRead_length fd 1 k
    have hcounts := sysRead_counts fd 1 k
    have hturn : ∀ y k', Yields serve (LinuxBuild.sysRead fd 1 k).2.2
        (if (LinuxBuild.sysRead fd 1 k).1 ≤ 0 then pure (.inr none)
          else if crlfCrlf.isSuffixOf (header ++ [(LinuxBuild.sysRead fd 1 k).2.1.headD 0]) then
            pure (.inr (if httpStatusOk (header ++ [(LinuxBuild.sysRead fd 1 k).2.1.headD 0]) then
              some (header ++ [(LinuxBuild.sysRead fd 1 k).2.1.headD 0]) else none))
          else pure (.inl (header ++ [(LinuxBuild.sysRead fd 1 k).2.1.headD 0]))) y k' →
        Yields serve k (headerTurn fd capacity header) y k' := by
      intro y k' h
      rw [headerTurn, if_pos (by omega)]
      exact .bind .ask h
    simp only [readHeaderFrom]
    revert hlength hcounts hturn
    generalize LinuxBuild.sysRead fd 1 k = r
    obtain ⟨count, bytes, k₁⟩ := r
    intro hlength hcounts hturn
    simp only at hlength hcounts hturn ⊢
    by_cases hcount : count ≤ 0
    · rw [if_pos hcount] at hturn ⊢
      exact .last (hturn _ _ .ret)
    · obtain ⟨c, rfl⟩ : ∃ c, bytes = [c] := List.length_eq_one_iff.mp (by omega)
      rw [if_neg hcount] at hturn ⊢
      rw [List.headD_cons] at hturn
      by_cases hsuffix : crlfCrlf.isSuffixOf (header ++ [c]) = true
      · rw [if_pos hsuffix] at hturn ⊢
        exact .last (hturn _ _ .ret)
      · rw [if_neg hsuffix] at hturn ⊢
        refine .again (hturn _ _ .ret) (ih _ ?_)
        rw [List.length_append]
        simp only [List.length_cons, List.length_nil]
        omega

theorem yields_readResponseHeader (fd : Nat) (k : Kernel) :
    Yields serve k (readResponseHeader fd 1024)
      (if (LinuxBuild.readResponseHeader fd 1024 k).1 then
        some (LinuxBuild.readResponseHeader fd 1024 k).2.1 else none)
      (LinuxBuild.readResponseHeader fd 1024 k).2.2 :=
  yields_readHeaderFrom k rfl

/-- A write leaves the peer and the other descriptors alone. -/
theorem sysWrite_others (fd : Nat) (bytes : Bytes) (k : Kernel) :
    (LinuxBuild.sysWrite fd bytes k).2.incoming = k.incoming ∧
      ∀ other, other ≠ fd → (LinuxBuild.sysWrite fd bytes k).2.object other = k.object other := by
  unfold LinuxBuild.sysWrite
  split
  · exact ⟨rfl, fun _ _ => rfl⟩
  · split
    · exact ⟨rfl, fun _ _ => rfl⟩
    · exact ⟨rfl, fun _ _ => rfl⟩
    · simp only
      split
      · exact ⟨rfl, fun _ _ => rfl⟩
      · exact ⟨rfl, fun _ h => setObject_other h⟩
    · exact ⟨rfl, fun _ _ => rfl⟩

theorem writeLoop_others {fd fuel written : Nat} {rest : Bytes} (k : Kernel) :
    (writeLoop fuel fd rest written k).2.incoming = k.incoming ∧
      ∀ other, other ≠ fd → (writeLoop fuel fd rest written k).2.object other = k.object other := by
  induction fuel generalizing rest written k with
  | zero => exact ⟨rfl, fun _ _ => rfl⟩
  | succ fuel ih =>
    obtain ⟨hincoming, hobject⟩ := sysWrite_others fd rest k
    simp only [writeLoop]
    split
    · exact ⟨rfl, fun _ _ => rfl⟩
    · split
      · exact ⟨hincoming, hobject⟩
      · obtain ⟨hincoming', hobject'⟩ := @ih (written + (LinuxBuild.sysWrite fd rest k).1.toNat)
          (rest.drop (LinuxBuild.sysWrite fd rest k).1.toNat) (LinuxBuild.sysWrite fd rest k).2
        exact ⟨hincoming'.trans hincoming, fun other h => (hobject' other h).trans (hobject other h)⟩

theorem writeAll_others (fd : Nat) (bytes : Bytes) (k : Kernel) :
    (LinuxBuild.writeAll fd bytes k).2.incoming = k.incoming ∧
      ∀ other, other ≠ fd → (LinuxBuild.writeAll fd bytes k).2.object other = k.object other :=
  writeLoop_others k

/-- The rounds that `copyBody` has suffice: every round but the last reads. -/
theorem yields_copyBody {socket output fuel total : Nat} (k : Kernel) (hout : output ≠ 1)
    (hne : socket ≠ output) (hs : k.object socket = some .stream) (hf : k.incoming.length < fuel) :
    Yields serve k (.loop (bodyTurn socket output) total)
      ((LinuxBuild.copyBody fuel socket output total k).1,
        (LinuxBuild.copyBody fuel socket output total k).2.1)
      (LinuxBuild.copyBody fuel socket output total k).2.2 := by
  induction fuel generalizing total k with
  | zero => omega
  | succ fuel ih =>
    obtain ⟨hread, _, hcounts⟩ := sysRead_stream 1024 hs (by decide)
    have hturn : ∀ y k', Yields serve (LinuxBuild.sysRead socket 1024 k).2.2
        (if (LinuxBuild.sysRead socket 1024 k).1 = 0 then pure (.inr (false, total))
          else if (LinuxBuild.sysRead socket 1024 k).1 < 0 then pure (.inr (true, total))
          else do
            let written ← writeAll output ((LinuxBuild.sysRead socket 1024 k).2.1.take
              (LinuxBuild.sysRead socket 1024 k).1.toNat)
            if written < 0 then pure (.inr (true, total))
            else pure (.inl ((total + (LinuxBuild.sysRead socket 1024 k).1.toNat) % 2 ^ 64))) y k' →
        Yields serve k (bodyTurn socket output total) y k' := by
      intro y k' h
      exact .bind .ask h
    simp only [LinuxBuild.copyBody]
    revert hread hcounts hturn
    generalize LinuxBuild.sysRead socket 1024 k = r
    obtain ⟨count, buffer, k₁⟩ := r
    intro hread hcounts hturn
    simp only at hread hcounts hturn ⊢
    by_cases hzero : count = 0
    · rw [if_pos hzero] at hturn ⊢
      exact .last (hturn _ _ .ret)
    · rw [if_neg hzero] at hturn ⊢
      by_cases hneg : count < 0
      · rw [if_pos hneg] at hturn ⊢
        exact .last (hturn _ _ .ret)
      · have hcount : count.toNat = buffer.length := by omega
        rw [if_neg hneg] at hturn ⊢
        rw [hcount, List.take_length] at hturn
        rw [hcount]
        have hwrite := yields_writeAll buffer k₁ hout
        obtain ⟨hincoming, hobject⟩ := writeAll_others output buffer k₁
        by_cases hfailed : (LinuxBuild.writeAll output buffer k₁).1 < 0
        · rw [if_pos hfailed]
          refine .last (hturn _ _ (.bind hwrite ?_))
          rw [if_pos hfailed]
          exact .ret
        · rw [if_neg hfailed]
          refine .again (hturn _ _ (.bind hwrite ?_)) (ih _ ?_ ?_)
          · rw [if_neg hfailed]
            exact .ret
          · exact (hobject socket hne).trans ((hread.object socket).trans hs)
          · have hlength := congrArg List.length hread.incoming
            rw [List.length_append] at hlength
            rw [hincoming]
            omega

/-! ## The command -/

/-- Descriptor 1 is in use, so nothing else gets its number. -/
def Consoled (k : Kernel) : Prop := k.object 1 ≠ none

theorem yields_connectTcp {port : Nat} (host : Bytes) (k : Kernel) (hport : port < 2 ^ 16) :
    Yields serve k (connectTcp host port) (LinuxBuild.connectTcp host port k).1
      (LinuxBuild.connectTcp host port k).2 := by
  unfold connectTcp LinuxBuild.connectTcp
  rw [Nat.mod_eq_of_lt hport]
  cases parseIpv4 host with
  | none => exact .bind (yields_putLine _ k) .ret
  | some address =>
    simp only
    obtain ⟨hdescriptor, hstate⟩ := handedOut_descriptor (LinuxBuild.sysSocket k)
    refine .bind (.bind .ask .ret) ?_
    simp only [serve, hdescriptor, hstate]
    generalize LinuxBuild.sysSocket k = r
    obtain ⟨_ | fd, k₁⟩ := r
    · exact .bind (yields_printError _ _ k₁) .ret
    · simp only
      refine .bind yields_status ?_
      obtain ⟨hvalue, hstate⟩ := succeeded_value (sysConnect fd ⟨afInet, hostToNetwork16 port, address⟩ k₁)
      simp only [serve, hvalue, hstate]
      generalize sysConnect fd ⟨afInet, hostToNetwork16 port, address⟩ k₁ = r
      obtain ⟨_ | _, k₂⟩ := r
      · simp only [if_true]
        exact .bind (yields_sysClose _ _) (.bind (yields_printError _ _ _) .ret)
      · simp only [Bool.true_eq_false, if_false]
        exact .ret

theorem yields_fetchBody {socket output : Nat} (expected : Option Nat) (path : Bytes) (k : Kernel)
    (hout : output ≠ 1) (hne : socket ≠ output) (hs : k.object socket = some .stream) :
    Yields serve k (fetchBody expected socket output path) ()
      (LinuxBuild.fetchBody expected socket output path k) := by
  refine .bind (yields_copyBody k hout hne hs (Nat.lt_succ_self _)) ?_
  simp only [LinuxBuild.fetchBody]
  generalize LinuxBuild.copyBody (k.incoming.length + 1) socket output 0 k = r
  obtain ⟨failed, total, k₁⟩ := r
  refine .bind (yields_sysClose _ _) (.bind (yields_sysClose _ _) ?_)
  simp only
  split
  · exact .bind yields_status (yields_printError _ _ _)
  · apply Yields.bind (yields_putsRaw _ _)
    apply Yields.bind (yields_printU64 _ _)
    apply Yields.bind (yields_putsRaw _ _)
    exact yields_putLine _ _

theorem yields_fetchInto {socket : Nat} (expected : Option Nat) (path : Bytes) (k : Kernel)
    (hconsole : Consoled k) (hs : k.object socket = some .stream) :
    Yields serve k (fetchInto expected socket path) ()
      (LinuxBuild.fetchInto expected socket path k) := by
  obtain ⟨hdescriptor, hstate⟩ := handedOut_descriptor (sysCreate path k)
  have hcreate := sysCreate_spec path k
  refine .bind (.bind .ask .ret) ?_
  simp only [serve, if_true, hdescriptor, hstate, LinuxBuild.fetchInto]
  revert hcreate
  generalize sysCreate path k = r
  obtain ⟨_ | output, k₁⟩ := r
  · intro _
    exact .bind (yields_printError _ _ k₁) (yields_sysClose _ _)
  · rintro (⟨hnone, _⟩ | ⟨o, i, ho, hfree, _, _, _, _, _, _, hobject, hothers⟩)
    · cases hnone
    · cases ho
      simp only at hobject hothers ⊢
      have hne : socket ≠ output := by
        rintro rfl
        cases hs.symm.trans hfree
      have hout : output ≠ 1 := by
        rintro rfl
        exact hconsole hfree
      refine .bind yields_status ?_
      obtain ⟨hvalue, hstate⟩ := succeeded_value (sysFchmod output k₁)
      simp only [serve, hvalue, hstate]
      have hchmod : (sysFchmod output k₁).2.object socket = some .stream := by
        rw [sysFchmod, hobject]
        exact (hothers socket hne).trans hs
      revert hchmod
      generalize sysFchmod output k₁ = r
      obtain ⟨_ | _, k₂⟩ := r
      · intro _
        simp only [if_true]
        apply Yields.bind (yields_printError _ _ _)
        apply Yields.bind (yields_sysClose _ _)
        apply Yields.bind yields_status
        exact yields_sysClose _ _
      · intro hchmod
        simp only [Bool.true_eq_false, if_false]
        exact yields_fetchBody expected path k₂ hout hne hchmod

theorem yields_fetchFrom {w : Word} {socket : Nat} (host remote path : Bytes) (k : Kernel)
    (hconsole : Consoled k) (hs : k.object socket = some .stream) (hsocket : socket ≠ 1) :
    Yields serve k (fetchFrom w socket host remote path) ()
      (LinuxBuild.fetchFrom w socket host remote path k) := by
  have hsent : OnStream socket [] k (LinuxBuild.sendRequest socket host remote k).2 :=
    writeEach_stream hs
  refine .bind (yields_sendRequest host remote k hsocket) ?_
  simp only [LinuxBuild.fetchFrom]
  revert hsent
  generalize LinuxBuild.sendRequest socket host remote k = r
  obtain ⟨_ | _, k₁⟩ := r
  · intro _
    exact .bind (yields_putLine _ k₁) (yields_sysClose _ _)
  · intro hsent
    simp only [Bool.not_true, Bool.false_eq_true, if_false]
    have hs₁ : k₁.object socket = some .stream := (hsent.object socket).trans hs
    obtain ⟨hread, _⟩ := readResponseHeader_spec hs₁
    refine .bind (yields_readResponseHeader socket k₁) ?_
    revert hread
    generalize LinuxBuild.readResponseHeader socket 1024 k₁ = r
    obtain ⟨_ | _, header, k₂⟩ := r
    · intro _
      exact .bind (yields_putLine _ k₂) (yields_sysClose _ _)
    · intro hread
      simp only [if_true]
      have hs₂ : k₂.object socket = some .stream := (hread.object socket).trans hs₁
      have hconsole₂ : Consoled k₂ := by
        rw [Consoled, hread.object, hsent.object]
        exact hconsole
      cases contentLength w header with
      | invalid => exact .bind (yields_putLine _ k₂) (yields_sysClose _ _)
      | absent => exact yields_fetchInto none path k₂ hconsole₂ hs₂
      | length value => exact yields_fetchInto (some value) path k₂ hconsole₂ hs₂

theorem sysSocket_others {k : Kernel} {fd : Nat} (h : (LinuxBuild.sysSocket k).1 = some fd) :
    k.object fd = none ∧
      ∀ other, other ≠ fd → (LinuxBuild.sysSocket k).2.object other = k.object other := by
  obtain ⟨_, hfree, hothers⟩ := allocate_spec .stream k.fds
  unfold LinuxBuild.sysSocket at h ⊢
  split at h
  · cases h
  · rename_i hneg
    rw [if_neg hneg]
    cases h
    exact ⟨hfree, hothers⟩

theorem sysConnect_objects (fd : Nat) (peer : SockaddrIn) (k : Kernel) (other : Nat) :
    (sysConnect fd peer k).2.object other = k.object other := by
  unfold sysConnect
  split
  · rfl
  · split
    · rfl
    · rfl

/-- The connection does not get the number of the console. -/
theorem connectTcp_others {host : Bytes} {port fd : Nat} {k : Kernel} (hconsole : Consoled k)
    (h : (LinuxBuild.connectTcp host port k).1 = some fd) :
    fd ≠ 1 ∧ Consoled (LinuxBuild.connectTcp host port k).2 := by
  have hsocket := @sysSocket_others k
  unfold LinuxBuild.connectTcp at h ⊢
  cases hhost : parseIpv4 host with
  | none =>
    rw [hhost] at h
    cases h
  | some address =>
    rw [hhost] at h
    simp only at h ⊢
    revert hsocket h
    generalize LinuxBuild.sysSocket k = r
    obtain ⟨_ | socket, k₁⟩ := r
    · intro _ h
      cases h
    · intro hsocket h
      obtain ⟨hfree, hothers⟩ := hsocket rfl
      have hne : socket ≠ 1 := by
        rintro rfl
        exact hconsole hfree
      have hkept : k₁.object 1 ≠ none := by
        rw [hothers 1 hne.symm]
        exact hconsole
      have hconnect := sysConnect_objects socket ⟨afInet, hostToNetwork16 port, address⟩ k₁
      simp only at h ⊢
      revert h hconnect
      generalize sysConnect socket ⟨afInet, hostToNetwork16 port, address⟩ k₁ = r
      obtain ⟨_ | _, k₂⟩ := r
      · intro h _
        cases h
      · intro h hconnect
        cases h
        refine ⟨hne, ?_⟩
        rw [Consoled, hconnect]
        exact hkept

theorem yields_fetch (w : Word) (name host portText remote path : Bytes) (k : Kernel)
    (hconsole : Consoled k) :
    Yields serve k (cmdFetch w [name, host, portText, remote, path]) ()
      (LinuxBuild.cmdFetch w [name, host, portText, remote, path] k) := by
  have husage : Yields serve k fetchUsage () (LinuxBuild.fetchUsage k) := yields_putLine _ k
  simp only [cmdFetch, LinuxBuild.cmdFetch, portOf]
  cases parseUnsigned w portText with
  | none => exact husage
  | some port =>
    simp only [Option.filter_some]
    by_cases hport : port ≠ 0 ∧ port ≤ 65535
    · have hrange : (port = 0 || port > 65535) = false := by simpa using hport
      rw [if_pos (by simpa using hport), hrange, Bool.false_or]
      by_cases hslash : remote.head? = some '/'.toUInt8
      · rw [if_neg (by simpa using hslash)]
        simp only [hslash, ne_eq, not_true_eq_false, if_false]
        refine .bind (yields_connectTcp host k (by omega)) ?_
        obtain ⟨hnone, _⟩ | ⟨socket, hsome, _, hobject, _⟩ := connectTcp_spec host port k
        · revert hnone
          generalize LinuxBuild.connectTcp host port k = r
          obtain ⟨fd, k₁⟩ := r
          rintro rfl
          exact .ret
        · obtain ⟨hne, hconsole₁⟩ := connectTcp_others hconsole hsome
          revert hsome hobject hconsole₁
          generalize LinuxBuild.connectTcp host port k = r
          obtain ⟨fd, k₁⟩ := r
          rintro rfl hobject hconsole₁
          exact yields_fetchFrom host remote path k₁ hconsole₁ hobject hne
      · rw [if_pos (decide_eq_true hslash)]
        simp only [ne_eq, hslash, not_false_eq_true, if_true]
        exact husage
    · have hrange : (port = 0 || port > 65535) = true := by
        simp only [Bool.or_eq_true, decide_eq_true_eq]
        omega
      rw [if_neg (by simpa using hport), hrange, Bool.true_or, if_pos rfl]
      exact husage

/-- The program, served by the kernel, leaves it as the function says. -/
theorem yields_cmdFetch (w : Word) (argv : List Bytes) (k : Kernel) (hconsole : Consoled k) :
    Yields serve k (cmdFetch w argv) () (LinuxBuild.cmdFetch w argv k) := by
  by_cases hargs : ∃ name host portText remote path, argv = [name, host, portText, remote, path]
  · obtain ⟨name, host, portText, remote, path, rfl⟩ := hargs
    exact yields_fetch w name host portText remote path k hconsole
  · have hprogram : cmdFetch w argv = fetchUsage := by
      unfold cmdFetch
      split
      · exact absurd ⟨_, _, _, _, _, rfl⟩ hargs
      · rfl
    have hfunction : LinuxBuild.cmdFetch w argv k = LinuxBuild.fetchUsage k := by
      unfold LinuxBuild.cmdFetch
      split
      · exact absurd ⟨_, _, _, _, _, rfl⟩ hargs
      · rfl
    rw [hprogram, hfunction]
    exact yields_putLine _ k

theorem cmdFetch_served_iff (w : Word) (argv : List Bytes) (k k' : Kernel) (hconsole : Consoled k) :
    Yields serve k (cmdFetch w argv) () k' ↔ k' = LinuxBuild.cmdFetch w argv k := by
  constructor
  · intro h
    exact ((yields_cmdFetch w argv k hconsole).unique h).2
  · rintro rfl
    exact yields_cmdFetch w argv k hconsole

/-- A run of the program has one of the three outcomes of the function. -/
theorem cmdFetch_served_spec (w : Word) (argv : List Bytes) {k k' : Kernel}
    (hconsole : Consoled k) (hk : k.WritesAdvance)
    (h : Yields serve k (cmdFetch w argv) () k') :
    Refused k k' ∨ (∃ o i block body, Saved w (localPath argv) o i block body k k') ∨
      ∃ o i block body, Removed w (localPath argv) o i block body k k' := by
  obtain rfl := (cmdFetch_served_iff w argv k k' hconsole).mp h
  exact cmdFetch_spec w argv hk

/-! ## What `saved` says of the program -/

/-- Every run of the program that prints `saved` for this response has written
as many bytes as the first Content-Length line says. -/
def RunsSaveDeclared (w : Word) (stream : Bytes) : Prop :=
  ∀ argv k k', Consoled k → k.WritesAdvance → k.incoming = stream →
    Yields serve k (cmdFetch w argv) () k' → PrintsSaved k k' →
    ∀ block body line, stream = block ++ body → IsHeaderBlock block →
      lengthLine block = some line →
      ∃ content, k'.files.read (localPath argv) = some content ∧
        writtenLength line = some content.length

/-- The program saves what was declared for exactly the responses for which the
function does. -/
theorem runsSaveDeclared_iff (w : Word) (stream : Bytes) :
    RunsSaveDeclared w stream ↔ ¬ Misleads w stream := by
  constructor
  · intro h hmisleads
    obtain ⟨block, body, line, hstream, hblock, hline, hprints, hother⟩ := misled_boot hmisleads
    have hconsole : Consoled (.boot (fun _ => 1) stream) := by simp [Consoled, Kernel.boot, Kernel.object]
    have hwilling : (Kernel.boot (fun _ => 1) stream).Willing := fun _ => Int.one_pos
    obtain ⟨content, hread, hwritten⟩ := h fetchArgs _ _ hconsole hwilling.writesAdvance rfl
      (yields_cmdFetch w fetchArgs _ hconsole) hprints block body line hstream hblock hline
    exact hother content hread hwritten
  · intro h argv k k' hconsole hk hincoming hrun hprints
    obtain rfl := (cmdFetch_served_iff w argv k k' hconsole).mp hrun
    exact savesDeclared_of_not_misleads h argv k hk hincoming hprints

end LinuxBuild.Payload
