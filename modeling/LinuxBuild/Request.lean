import LinuxBuild.Ports
import LinuxBuild.SplitArgs
import LinuxBuild.Writes

/-!
# The request of `cmd_fetch`

`send_request` writes its arguments as they are. What keeps a typed path from
adding a line to the request is that words hold no blanks.
-/

namespace LinuxBuild.Payload

open Interaction

def request (host path : Bytes) : Bytes :=
  ascii "GET " ++ path ++ ascii " HTTP/1.0" ++ [cr, lf] ++
    (ascii "Host: " ++ host ++ [cr, lf] ++ (ascii "Connection: close" ++ [cr, lf] ++ [cr, lf]))

/-- The five texts of `send_request`, put together. -/
theorem requestTexts_flatten (host path : Bytes) :
    (requestTexts host path).flatten = request host path := by
  have hfirst : ascii " HTTP/1.0\r\nHost: " = ascii " HTTP/1.0" ++ [cr, lf] ++ ascii "Host: " := by
    decide
  have hlast : ascii "\r\nConnection: close\r\n\r\n" =
      [cr, lf] ++ ascii "Connection: close" ++ [cr, lf] ++ [cr, lf] := by decide
  rw [requestTexts, hfirst, hlast, request]
  simp only [List.flatten_cons, List.flatten_nil, List.append_assoc, List.append_nil]

theorem lf_free {text : Bytes} (h : lf ∉ text) : ∀ c ∈ text, (c == lf) = false := by
  intro c hc
  apply beq_false_of_ne
  rintro rfl
  exact h hc

/-- A request whose host and path have no newline has these lines and no others. -/
theorem request_lines {host path : Bytes} (hhost : lf ∉ host) (hpath : lf ∉ path) :
    (request host path).splitOnP (· == lf) =
      [ascii "GET " ++ path ++ ascii " HTTP/1.0" ++ [cr], ascii "Host: " ++ host ++ [cr],
        ascii "Connection: close" ++ [cr], [cr], []] := by
  have hget : lf ∉ ascii "GET " ++ path ++ ascii " HTTP/1.0" ++ [cr] := by
    simp only [List.mem_append, hpath, or_false]
    decide
  have hto : lf ∉ ascii "Host: " ++ host ++ [cr] := by
    simp only [List.mem_append, hhost, or_false]
    decide
  have hclose : lf ∉ ascii "Connection: close" ++ [cr] := by decide
  have hblank : lf ∉ [cr] := by decide
  have hlf : (lf == lf) = true := rfl
  have hform : request host path = ascii "GET " ++ path ++ ascii " HTTP/1.0" ++ [cr] ++ lf ::
      (ascii "Host: " ++ host ++ [cr] ++ lf ::
        (ascii "Connection: close" ++ [cr] ++ lf :: ([cr] ++ lf :: []))) := by
    simp [request]
  rw [hform, List.splitOnP_append_cons_of_forall_mem (lf_free hget) lf hlf,
    List.splitOnP_append_cons_of_forall_mem (lf_free hto) lf hlf,
    List.splitOnP_append_cons_of_forall_mem (lf_free hclose) lf hlf,
    List.splitOnP_append_cons_of_forall_mem (lf_free hblank) lf hlf, List.splitOnP_nil]

/-! ## What is put on the socket -/

theorem makes_sysWrite {fd : Nat} {bytes : Bytes} {t : Trace Call Reply} {c : Call}
    (h : Makes (sysWrite fd bytes) t c) : t = [] ∧ c = .write fd bytes := by
  obtain h | ⟨u, v, r, _, _, h⟩ := makes_bind.mp h
  · exact makes_ask.mp h
  · exact absurd h not_makes_ret

theorem makes_writeTurn {fd : Nat} {rest : Bytes} {written : Nat} {t : Trace Call Reply} {c : Call}
    (h : Makes (writeTurn fd (rest, written)) t c) : t = [] ∧ c = .write fd rest := by
  rw [writeTurn] at h
  split at h
  · exact absurd h not_makes_ret
  · obtain h | ⟨u, v, count, _, _, h⟩ := makes_bind.mp h
    · exact makes_sysWrite h
    · split at h
      · exact absurd h not_makes_ret
      · exact absurd h not_makes_ret

/-- What was sent and what is being sent are the buffer. -/
theorem makes_writeAll {fd : Nat} {buffer : Bytes} {t : Trace Call Reply} {c : Call}
    (h : Makes (writeAll fd buffer) t c) (hl : Legal t) :
    ∃ rest, c = .write fd rest ∧ accepted fd t ++ rest = buffer := by
  have hloop := makes_induction (motive := fun x t c => Legal t →
    ∃ rest, c = Call.write fd rest ∧ accepted fd t ++ rest = x.1) ?_ ?_ h hl
  · exact hloop
  · rintro ⟨rest, written⟩ t c hturn _
    obtain ⟨rfl, rfl⟩ := makes_writeTurn hturn
    exact ⟨rest, rfl, rfl⟩
  · rintro ⟨rest, written⟩ ⟨rest', written'⟩ t u c hturn ih hl
    obtain ⟨hlt, hlu⟩ := legal_append.mp hl
    obtain ⟨_, _, hy⟩ | ⟨_, r, rfl, ⟨_, hy⟩ | ⟨_, hy⟩⟩ := writeTurn_cases hturn
    · cases hy
    · cases hy
    · cases hy
      obtain ⟨more, hc, hmore⟩ := ih hlu
      refine ⟨more, hc, ?_⟩
      rw [accepted_append, List.append_assoc, hmore, accepted_write, accepted_nil, List.append_nil,
        List.take_append_drop]

/-- Every call of the trace writes to the descriptor. -/
def WritesTo (fd : Nat) (t : Trace Call Reply) : Prop := ∀ e ∈ t, ∃ bytes, e.1 = .write fd bytes

/-- Every call of the trace had an effect. -/
def AllMoved (t : Trace Call Reply) : Prop := ∀ e ∈ t, 0 < e.2.value

theorem writesTo_writeEach (fd : Nat) (texts : List Bytes) :
    CallsOnly (fun c => ∃ bytes, c = .write fd bytes) (writeEach fd texts) :=
  calls_writeEach (fun bytes => ⟨bytes, rfl⟩) texts

theorem runs_writeEach {fd : Nat} {texts : List Bytes} {t : Trace Call Reply} {sent : Bool}
    (h : Runs (writeEach fd texts) t sent) (hl : Legal t) (hmoved : AllMoved t) :
    accepted fd t = texts.flatten := by
  induction texts generalizing t with
  | nil =>
    obtain ⟨rfl, _⟩ := runs_ret.mp h
    rfl
  | cons text texts ih =>
    obtain ⟨u, v, n, rfl, hu, hv⟩ := runs_bind.mp h
    obtain ⟨hlu, hlv⟩ := legal_append.mp hl
    have hsent := sent_of_runs hu hlu
    obtain ⟨hwhole, hn⟩ := hsent.whole fun e he => hmoved e (List.mem_append_left _ he)
    rw [if_neg (by omega)] at hv
    rw [accepted_append, hwhole, ih hv hlv fun e he => hmoved e (List.mem_append_right _ he),
      List.flatten_cons]

theorem makes_writeEach {fd : Nat} {texts : List Bytes} {t : Trace Call Reply} {c : Call}
    (h : Makes (writeEach fd texts) t c) (hl : Legal t) (hmoved : AllMoved t) :
    ∃ rest, c = .write fd rest ∧ accepted fd t ++ rest <+: texts.flatten := by
  induction texts generalizing t with
  | nil => exact absurd h not_makes_ret
  | cons text texts ih =>
    obtain h | ⟨u, v, n, rfl, hu, hv⟩ := makes_bind.mp h
    · obtain ⟨rest, hc, hrest⟩ := makes_writeAll h hl
      refine ⟨rest, hc, ?_⟩
      rw [hrest, List.flatten_cons]
      exact List.prefix_append _ _
    · obtain ⟨hlu, hlv⟩ := legal_append.mp hl
      obtain ⟨hwhole, hn⟩ := (sent_of_runs hu hlu).whole fun e he =>
        hmoved e (List.mem_append_left _ he)
      rw [if_neg (by omega)] at hv
      obtain ⟨rest, hc, hrest⟩ := ih hv hlv fun e he => hmoved e (List.mem_append_right _ he)
      refine ⟨rest, hc, ?_⟩
      rw [accepted_append, hwhole, List.append_assoc, List.flatten_cons]
      exact (List.prefix_append_right_inj text).mpr hrest

/-! ## What is written after it -/

/-- The call writes to the console or to a file opened before it. -/
def WritesElsewhere (t : Trace Call Reply) (c : Call) : Prop :=
  ∀ d bytes, c = .write d bytes → d = 1 ∨
    ∃ path flags mode r, (Call.openat path flags mode, r) ∈ t ∧ r.descriptor = some d

/-- Only one descriptor besides the console is written to. -/
def WritesOnly (output : Nat) (c : Call) : Prop :=
  ∀ d bytes, c = .write d bytes → d = 1 ∨ d = output

section

variable {output : Nat}

theorem writesOnly_quiet {c : Call} (hc : isWrite c = false) : WritesOnly output c := by
  intro d bytes h
  rw [h] at hc
  cases hc

theorem writesOnly_console (bytes : Bytes) : WritesOnly output (.write 1 bytes) := by
  intro d bytes h
  cases h
  exact .inl rfl

theorem writesOnly_output (bytes : Bytes) : WritesOnly output (.write output bytes) := by
  intro d bytes h
  cases h
  exact .inr rfl

theorem writesOnly_close (fd : Nat) : CallsOnly (WritesOnly output) (sysClose fd) :=
  .bind (.ask (writesOnly_quiet rfl)) fun _ => .ret

theorem writesOnly_fetchBody (expected : Option Nat) (socket : Nat) (path : Bytes) :
    CallsOnly (WritesOnly output) (fetchBody expected socket output path) := by
  refine .bind (calls_copyBody (fun _ => writesOnly_quiet rfl) writesOnly_output) fun result => ?_
  refine .bind (writesOnly_close _) fun _ => ?_
  refine .bind (writesOnly_close _) fun _ => .ite ?_ ?_
  · exact .bind (calls_status (writesOnly_quiet rfl)) fun _ =>
      calls_printError writesOnly_console _ _
  · refine .bind (calls_putsRaw writesOnly_console _) fun _ => ?_
    refine .bind (calls_printU64 writesOnly_console _) fun _ => ?_
    exact .bind (calls_putsRaw writesOnly_console _) fun _ => calls_putLine writesOnly_console _

/-- `fetchInto` behind its `openat`. -/
theorem writesOnly_opened (expected : Option Nat) (socket : Nat) (path : Bytes) :
    CallsOnly (WritesOnly output) (do
      let changed ← status (.fchmod output 0o755)
      if changed < 0 then do
        printError (ascii "fetch") (some path)
        sysClose output
        let _ ← status (.unlinkat path 0)
        sysClose socket
      else fetchBody expected socket output path) := by
  refine .bind (calls_status (writesOnly_quiet rfl)) fun changed => .ite ?_ ?_
  · refine .bind (calls_printError writesOnly_console _ _) fun _ => ?_
    refine .bind (writesOnly_close _) fun _ => ?_
    exact .bind (calls_status (writesOnly_quiet rfl)) fun _ => writesOnly_close _
  · exact writesOnly_fetchBody _ _ _

end

theorem makes_status {c d : Call} {t : Trace Call Reply} (h : Makes (status c) t d) :
    t = [] ∧ d = c := by
  obtain h | ⟨u, v, r, _, _, h⟩ := makes_bind.mp h
  · exact makes_ask.mp h
  · exact absurd h not_makes_ret

theorem writesElsewhere_mono {t u : Trace Call Reply} {c : Call} (h : WritesElsewhere t c) :
    WritesElsewhere (u ++ t) c := by
  intro d bytes hc
  obtain hd | ⟨path, flags, mode, r, hmem, hr⟩ := h d bytes hc
  · exact .inl hd
  · exact .inr ⟨path, flags, mode, r, List.mem_append_right _ hmem, hr⟩

/-- If the call is a write, it writes to the console. -/
def ToConsole (c : Call) : Prop := ∀ d bytes, c = .write d bytes → d = 1

theorem toConsole_quiet {c : Call} (hc : isWrite c = false) : ToConsole c := by
  intro d bytes h
  rw [h] at hc
  cases hc

theorem toConsole_write (bytes : Bytes) : ToConsole (.write 1 bytes) := by
  intro d bytes h
  cases h
  rfl

theorem toConsole_close (fd : Nat) : CallsOnly ToConsole (sysClose fd) :=
  .bind (.ask (toConsole_quiet rfl)) fun _ => .ret

theorem ToConsole.elsewhere {t : Trace Call Reply} {c : Call} (h : ToConsole c) :
    WritesElsewhere t c := fun d bytes hc => .inl (h d bytes hc)

theorem makes_fetchInto {expected : Option Nat} {socket : Nat} {path : Bytes}
    {t : Trace Call Reply} {c : Call} (h : Makes (fetchInto expected socket path) t c) :
    WritesElsewhere t c := by
  obtain h | ⟨u, v, output, rfl, hu, hv⟩ := makes_bind.mp h
  · obtain h | ⟨_, _, _, _, _, h⟩ := makes_bind.mp h
    · obtain ⟨_, rfl⟩ := makes_ask.mp h
      exact (toConsole_quiet rfl).elsewhere
    · exact absurd h not_makes_ret
  · obtain ⟨r, w, rfl, hw⟩ := runs_ask_bind.mp hu
    obtain ⟨rfl, rfl⟩ := runs_ret.mp hw
    cases ho : r.descriptor with
    | none =>
      rw [ho] at hv
      have hcalls : CallsOnly ToConsole
          (do printError (ascii "fetch") (some path); sysClose socket) :=
        .bind (calls_printError toConsole_write _ _) fun _ => toConsole_close _
      exact (hcalls _ _ hv).elsewhere
    | some output =>
      rw [ho] at hv
      intro d bytes hc
      obtain hd | rfl := writesOnly_opened expected socket path _ _ hv d bytes hc
      · exact .inl hd
      · exact .inr ⟨_, _, _, r, List.mem_append_left _ List.mem_cons_self, ho⟩

/-- What `fetchFrom` does behind `sendRequest`. -/
def fetchAnswer (w : Word) (socket : Nat) (path : Bytes) (sent : Bool) : Sys Unit :=
  let failed := do
    putLine (ascii "fetch: HTTP request failed or non-200 response")
    sysClose socket
  if !sent then failed
  else do
    match ← readResponseHeader socket 1024 with
    | none => failed
    | some header =>
      match contentLength w header with
      | .invalid => do
        putLine (ascii "fetch: invalid Content-Length")
        sysClose socket
      | .absent => fetchInto none socket path
      | .length value => fetchInto (some value) socket path

theorem fetchFrom_eq (w : Word) (socket : Nat) (host remote path : Bytes) :
    fetchFrom w socket host remote path =
      .bind (sendRequest socket host remote) (fetchAnswer w socket path) := rfl

theorem makes_fetchAnswer {w : Word} {socket : Nat} {path : Bytes} {sent : Bool}
    {t : Trace Call Reply} {c : Call} (h : Makes (fetchAnswer w socket path sent) t c) :
    WritesElsewhere t c := by
  have hsay : ∀ text, CallsOnly ToConsole (do putLine text; sysClose socket) := fun text =>
    .bind (calls_putLine toConsole_write text) fun _ => toConsole_close socket
  rw [fetchAnswer] at h
  split at h
  · exact (hsay _ _ _ h).elsewhere
  · obtain h | ⟨u, v, header, rfl, _, hv⟩ := makes_bind.mp h
    · exact (calls_readResponseHeader (fun _ => toConsole_quiet rfl) 1024 _ _ h).elsewhere
    · apply writesElsewhere_mono
      cases header with
      | none => exact (hsay _ _ _ hv).elsewhere
      | some header =>
        dsimp only at hv
        split at hv
        · exact (hsay _ _ _ hv).elsewhere
        · exact makes_fetchInto hv
        · exact makes_fetchInto hv

/-- The request is still being written, and `c` goes on with it. -/
def Sending (fd : Nat) (text : Bytes) (sent : Trace Call Reply) (c : Call) : Prop :=
  ∃ rest, c = .write fd rest ∧ (AllMoved sent → accepted fd sent ++ rest <+: text)

/-- The request is behind, and nothing more goes to its socket. -/
structure SentThen (fd : Nat) (text : Bytes) (sent after : Trace Call Reply) (c : Call) : Prop where
  whole : AllMoved sent → accepted fd sent = text
  since : ∀ v e w, after = v ++ e :: w → WritesElsewhere v e.1
  next : WritesElsewhere after c

theorem makes_fetchFrom {w : Word} {socket : Nat} {host remote path : Bytes}
    {u : Trace Call Reply} {c : Call} (h : Makes (fetchFrom w socket host remote path) u c)
    (hl : Legal u) : ∃ sent after, u = sent ++ after ∧ WritesTo socket sent ∧
      (after = [] ∧ Sending socket (request host remote) sent c ∨
        SentThen socket (request host remote) sent after c) := by
  rw [fetchFrom_eq] at h
  obtain h | ⟨sent, after, ok, rfl, hsent, hafter⟩ := makes_bind.mp h
  · refine ⟨u, [], (List.append_nil u).symm, (writesTo_writeEach socket _).of_makes h, .inl ⟨rfl, ?_⟩⟩
    obtain ⟨rest, hc⟩ := writesTo_writeEach socket _ _ _ h
    refine ⟨rest, hc, fun hmoved => ?_⟩
    obtain ⟨rest', hc', hprefix⟩ := makes_writeEach h hl hmoved
    cases hc.symm.trans hc'
    rwa [requestTexts_flatten] at hprefix
  · have hlsent := (legal_append.mp hl).1
    refine ⟨sent, after, rfl, (writesTo_writeEach socket _).of_runs hsent, .inr ⟨?_, ?_, ?_⟩⟩
    · intro hmoved
      rw [← requestTexts_flatten]
      exact runs_writeEach hsent hlsent hmoved
    · intro v e w hsplit
      exact makes_fetchAnswer (hafter.makes hsplit)
    · exact makes_fetchAnswer hafter

/-! ## From the line to the request -/

theorem isSpace_of_mem_wordRuns {line word : Bytes} (h : word ∈ wordRuns line) :
    ∀ c ∈ word, isSpace c = false := fun _ hc => (Bytes.mem_splitOnP (List.mem_filter.mp h).1 hc).1

/-- What a line asks for: its second word is a numeric host, its fourth a path,
and no byte of the two could end a word or a line of the request. -/
structure Asks (line host path : Bytes) : Prop where
  second : (wordRuns line)[1]? = some host
  fourth : (wordRuns line)[3]? = some path
  numeric : (parseIpv4 host).isSome = true
  slash : path.head? = some '/'.toUInt8
  plain : ∀ c ∈ host ++ path, c ≠ ' '.toUInt8 ∧ c ≠ '\t'.toUInt8 ∧ c ≠ cr ∧ c ≠ lf

/-- Any call but a connection. -/
def NoAddress (c : Call) : Prop := c.address = none

theorem runs_connectTcp {host : Bytes} {port fd : Nat} {t : Trace Call Reply}
    (h : Runs (connectTcp host port) t (some fd)) :
    ∃ address r₀ r₁, parseIpv4 host = some address ∧ t = [(.socket afInet sockStream 0, r₀),
      (.connect fd ⟨afInet, hostToNetwork16 (port % 2 ^ 16), address⟩, r₁)] := by
  rw [connectTcp] at h
  split at h
  · obtain ⟨_, _, _, _, _, hv⟩ := runs_bind.mp h
    cases (runs_ret.mp hv).2
  · rename_i address haddress
    obtain ⟨u, v, socket, rfl, hu, hv⟩ := runs_bind.mp h
    obtain ⟨r₀, u, rfl, hret⟩ := runs_ask_bind.mp hu
    obtain ⟨rfl, rfl⟩ := runs_ret.mp hret
    cases hs : r₀.descriptor with
    | none =>
      rw [hs] at hv
      obtain ⟨_, _, _, _, _, hv⟩ := runs_bind.mp hv
      cases (runs_ret.mp hv).2
    | some socket =>
      rw [hs] at hv
      obtain ⟨r₁, v, rfl, hend⟩ := runs_status_bind.mp hv
      split at hend
      · obtain ⟨_, _, _, _, _, hend⟩ := runs_bind.mp hend
        obtain ⟨_, _, _, _, _, hend⟩ := runs_bind.mp hend
        cases (runs_ret.mp hend).2
      · obtain ⟨rfl, hfd⟩ := runs_ret.mp hend
        cases hfd
        exact ⟨address, r₀, r₁, haddress, rfl⟩

/-- Before a call of `connect_tcp` itself no connection has been made. -/
theorem makes_connectTcp {host : Bytes} {port : Nat} {t : Trace Call Reply} {c : Call}
    (h : Makes (connectTcp host port) t c) :
    ∀ e ∈ t, e.1.address ≠ none → e.2.value < 0 := by
  have hquiet : ∀ {α : Type} {p : Sys α} {u : Trace Call Reply} {d : Call},
      CallsOnly NoAddress p → Makes p u d → ∀ e ∈ u, e.1.address ≠ none → e.2.value < 0 :=
    fun hp hm e he hne => absurd (hp.of_makes hm e he) hne
  rw [connectTcp] at h
  split at h
  · exact hquiet (.bind (calls_putLine (writes fun _ hc => hc) _) fun _ => .ret) h
  · obtain h | ⟨u, v, socket, rfl, hu, hv⟩ := makes_bind.mp h
    · exact hquiet (.bind (calls_ask (fun _ hc => hc) rfl) fun _ => .ret) h
    · obtain ⟨r₀, u, rfl, hret⟩ := runs_ask_bind.mp hu
      obtain ⟨rfl, rfl⟩ := runs_ret.mp hret
      simp only [List.cons_append, List.nil_append, List.forall_mem_cons]
      refine ⟨fun hne => absurd rfl hne, ?_⟩
      cases hs : r₀.descriptor with
      | none =>
        rw [hs] at hv
        exact hquiet (.bind (calls_printError (writes fun _ hc => hc) _ _) fun _ => .ret) hv
      | some socket =>
        rw [hs] at hv
        obtain h | ⟨u, v, value, rfl, hconnect, hend⟩ := makes_bind.mp hv
        · obtain ⟨rfl, _⟩ := makes_status h
          simp
        · obtain ⟨r₁, rfl, rfl⟩ := runs_status.mp hconnect
          split at hend
          · rename_i hneg
            simp only [List.cons_append, List.nil_append, List.forall_mem_cons]
            refine ⟨fun _ => hneg, hquiet ?_ hend⟩
            refine .bind (calls_close (fun _ hc => hc) _) fun _ => ?_
            exact .bind (calls_printError (writes fun _ hc => hc) _ _) fun _ => .ret
          · exact absurd hend not_makes_ret

/-- A run of `cmd_fetch` that has connected was told a host and a path, and is
with its request or behind it. -/
theorem makes_cmdFetch {w : Word} {argv : List Bytes} {before u : Trace Call Reply} {fd : Nat}
    {peer : SockaddrIn} {r : Reply} {c : Call}
    (h : Makes (cmdFetch w argv) (before ++ (.connect fd peer, r) :: u) c) (hr : 0 ≤ r.value)
    (hl : Legal (before ++ (.connect fd peer, r) :: u)) :
    ∃ name host text remote path, argv = [name, host, text, remote, path] ∧
      remote.head? = some '/'.toUInt8 ∧ (parseIpv4 host).isSome = true ∧
      ∃ sent after, u = sent ++ after ∧ WritesTo fd sent ∧
        (after = [] ∧ Sending fd (request host remote) sent c ∨
          SentThen fd (request host remote) sent after c) := by
  have husage : ¬ Makes fetchUsage (before ++ (.connect fd peer, r) :: u) c := by
    intro hm
    have hnone := (calls_putLine (writes (P := NoAddress) fun _ hc => hc) _).of_makes hm
    cases hnone (.connect fd peer, r) (by simp)
  match argv, h with
  | [name, host, text, remote, path], h =>
    rw [cmdFetch_eq] at h
    split at h
    · rename_i hok
      refine ⟨name, host, text, remote, path, rfl, hok.2, ?_⟩
      obtain h | ⟨t, v, socket, ht, hconnect, hfetch⟩ := makes_bind.mp h
      · have := makes_connectTcp h (.connect fd peer, r) (by simp) (by simp [Call.address])
        simp only at this
        omega
      · cases socket with
        | none => exact absurd hfetch not_makes_ret
        | some socket =>
          obtain ⟨address, r₀, r₁, haddress, rfl⟩ := runs_connectTcp hconnect
          have hnone := (calls_fetchFrom (P := NoAddress) (fun _ hc => hc) w socket host remote
            path).of_makes hfetch
          refine ⟨by rw [haddress]; rfl, ?_⟩
          rw [ht] at hl
          have hsent := makes_fetchFrom hfetch (legal_append.mp hl).2
          -- the connection is the second call of the trace
          match before, ht with
          | [], ht => cases ht
          | [_], ht =>
            cases ht
            exact hsent
          | _ :: _ :: before, ht =>
            simp only [List.cons_append, List.nil_append, List.cons.injEq] at ht
            cases hnone (.connect fd peer, r) (by simp [← ht.2.2])
    · exact absurd h husage
  | [], h | [_], h | [_, _], h | [_, _, _], h | [_, _, _, _], h | _ :: _ :: _ :: _ :: _ :: _ :: _, h =>
    exact absurd h husage

theorem not_mem_cstr (line : Bytes) : 0 ∉ cstr line := by
  intro h
  have := List.all_eq_true.mp List.all_takeWhile 0 h
  simp at this

/-- Whatever is typed behind `fetch`: once it has connected, the bytes it puts on
the socket, all writes complete, are the request of the words typed, which has
three lines and the blank one, and nothing else ever follows them there. -/
theorem fetch_request_exact {w : Word} {line : Bytes} {before u : Trace Call Reply} {fd : Nat}
    {peer : SockaddrIn} {r : Reply} {c : Call}
    (hname : (wordRuns (cstr line)).head? = some (ascii "fetch"))
    (h : Makes (runCommand w (argvOf (cstr line) argvCapacity))
      (before ++ (.connect fd peer, r) :: u) c)
    (hr : 0 ≤ r.value) (hl : Legal (before ++ (.connect fd peer, r) :: u)) :
    ∃ host path, Asks (cstr line) host path ∧
      (request host path).splitOnP (· == lf) =
        [ascii "GET " ++ path ++ ascii " HTTP/1.0" ++ [cr], ascii "Host: " ++ host ++ [cr],
          ascii "Connection: close" ++ [cr], [cr], []] ∧
      ∃ sent after, u = sent ++ after ∧ WritesTo fd sent ∧
        (after = [] ∧ Sending fd (request host path) sent c ∨
          SentThen fd (request host path) sent after c) := by
  have hargv : argvOf (cstr line) argvCapacity = (wordRuns (cstr line)).take 15 := by
    rw [argvOf_eq_words (not_mem_cstr line), words_eq_wordRuns]
    rfl
  have hrun : runCommand w (argvOf (cstr line) argvCapacity) =
      cmdFetch w (argvOf (cstr line) argvCapacity) := by
    rw [hargv]
    cases hwords : wordRuns (cstr line) with
    | nil => simp [hwords] at hname
    | cons name texts =>
      obtain rfl : name = ascii "fetch" := by simpa [hwords] using hname
      have hfind : (commands w).find? (fun command => ascii "fetch" = ascii command.1) =
          some ("fetch", cmdFetch w) := by
        simp +decide only [commands, List.find?_cons, decide_false, decide_true]
      rw [List.take_succ_cons, runCommand, hfind]
  rw [hrun] at h
  obtain ⟨name, host, text, path, file, hfive, hslash, hnumeric, hsent⟩ := makes_cmdFetch h hr hl
  have hword : ∀ i < 15, (wordRuns (cstr line))[i]? = [name, host, text, path, file][i]? := by
    intro i hi
    rw [← hfive, hargv, List.getElem?_take_of_lt hi]
  have hhost := hword 1 (by decide)
  have hpath := hword 3 (by decide)
  have hplain : ∀ c ∈ host ++ path, isSpace c = false := by
    intro c hc
    obtain hc | hc := List.mem_append.mp hc
    · exact isSpace_of_mem_wordRuns (List.mem_of_getElem? hhost) c hc
    · exact isSpace_of_mem_wordRuns (List.mem_of_getElem? hpath) c hc
  have hasks : Asks (cstr line) host path := by
    refine ⟨hhost, hpath, hnumeric, hslash, fun c hc => ?_⟩
    have := hplain c hc
    refine ⟨?_, ?_, ?_, ?_⟩ <;>
    · rintro rfl
      revert this
      decide
  refine ⟨host, path, hasks, request_lines ?_ ?_, hsent⟩
  · exact fun hmem => (hasks.plain lf (List.mem_append_left _ hmem)).2.2.2 rfl
  · exact fun hmem => (hasks.plain lf (List.mem_append_right _ hmem)).2.2.2 rfl

/-- A fetch whose request is written in one piece each and never answered. -/
def unansweredFetch : Trace Call Reply :=
  [(.socket afInet sockStream 0, ⟨3, [], []⟩), (.connect 3 ⟨2, 0x5000, 0x0202000a⟩, ⟨0, [], []⟩),
    (.write 3 (ascii "GET "), ⟨4, [], []⟩), (.write 3 (ascii "/a"), ⟨2, [], []⟩),
    (.write 3 (ascii " HTTP/1.0\r\nHost: "), ⟨17, [], []⟩),
    (.write 3 (ascii "10.0.2.2"), ⟨8, [], []⟩),
    (.write 3 (ascii "\r\nConnection: close\r\n\r\n"), ⟨23, [], []⟩)]

theorem fetch_request_exact_unanswered :
    ∃ sent, sent <+: unansweredFetch.drop 2 ∧
      accepted 3 sent = request (ascii "10.0.2.2") (ascii "/a") := by
  have hexec : ((exec scripted 60 (runCommand .rv32
      (argvOf (cstr (ascii "fetch 10.0.2.2 80 /a b")) argvCapacity))
      (unansweredFetch.map (·.2))).any fun x => decide
        (x.2.1.take 8 = unansweredFetch ++ [(.read 3 1, ⟨-1, [], []⟩)])) = true := by decide +kernel
  obtain ⟨t, _, hruns, ht⟩ := exists_runs_of_exec scripted 60 (unansweredFetch.map (·.2))
    (P := fun t => t.take 8 = unansweredFetch ++ [(.read 3 1, ⟨-1, [], []⟩)]) hexec
  have hsplit : t = unansweredFetch ++ (.read 3 1, ⟨-1, [], []⟩) :: t.drop 8 := by
    calc t = t.take 8 ++ t.drop 8 := (List.take_append_drop 8 t).symm
      _ = _ := by rw [ht, List.append_assoc]; rfl
  have hmakes := hruns.makes hsplit
  obtain ⟨host, path, hasks, _, sent, after, hu, hwrites, hsent⟩ :=
    @fetch_request_exact .rv32 (ascii "fetch 10.0.2.2 80 /a b") (unansweredFetch.take 1)
      (unansweredFetch.drop 2) 3 ⟨2, 0x5000, 0x0202000a⟩ ⟨0, [], []⟩ (.read 3 1)
      (by decide +kernel) hmakes (by decide) (by decide)
  have hwords : wordRuns (cstr (ascii "fetch 10.0.2.2 80 /a b")) =
      [ascii "fetch", ascii "10.0.2.2", ascii "80", ascii "/a", ascii "b"] := by decide +kernel
  have hhost := hasks.second
  have hpath := hasks.fourth
  rw [hwords] at hhost hpath
  cases hhost
  cases hpath
  obtain ⟨_, _, hc, _⟩ | hthen := hsent
  · cases hc
  · refine ⟨sent, ⟨after, hu.symm⟩, hthen.whole fun e he => ?_⟩
    have hmoved : ∀ e ∈ unansweredFetch.drop 2, 0 < e.2.value := by decide
    exact hmoved e (hu ▸ List.mem_append_left _ he)

end LinuxBuild.Payload
