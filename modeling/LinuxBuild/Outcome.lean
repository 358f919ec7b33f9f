import LinuxBuild.FetchWorld
import LinuxBuild.Print

/-!
# The three outcomes of `cmd_fetch`

Whatever the server sends and the calls answer, `LOCAL_PATH` is left alone, or
holds the whole body, or is unlinked; and the screen says which. A console that
takes no text and a device in the place of the file are the two exceptions.
-/

namespace LinuxBuild.Payload

open Interaction

inductive FetchOutcome where
  | untouched
  | saved
  | removed
  deriving DecidableEq, Repr

/-- What the outcome says of the worlds before and after. The body is what
follows the first CRLF CRLF of the response. -/
def FetchOutcome.Holds (path : Bytes) (s s' : World) : FetchOutcome → Prop
  | .untouched => s'.log = s.log ∧ s'.files = s.files
  | .saved => ∃ block body digits, s.incoming = block ++ body ∧ IsHeaderBlock block ∧
      block.length ≤ 1023 ∧ s'.files.read path = some body ∧
      Numeral.Decimal body.length digits ∧
      s'.console = s.console ++ (ascii "saved " ++ digits.map (fun d => UInt8.ofNat (48 + d)) ++
        ascii " bytes to " ++ path ++ ascii "\n")
  | .removed => ∃ block body i, s.incoming = block ++ body ∧ IsHeaderBlock block ∧
      s'.log = s.log ++ [.opened path (some i), .unlinked path] ∧
      s'.files.read path = none ∧ s'.files.data i <+: body ∧
      s'.console = s.console ++ errorLine path

/-! ## What each way out leaves -/

/-- Nothing was opened, and what was printed does not start like `saved`. -/
def Left (s s' : World) : Prop := ∃ text, Told s s' text ∧ text.head? ≠ some 's'.toUInt8

/-- The file has the whole body. -/
structure Whole (path body : Bytes) (s s' : World) : Prop where
  log : ∃ i, s'.log = s.log ++ [.opened path (some i)]
  content : s'.files.read path = some body
  bounded : body.length ≤ maxFileSize
  printed : Gains s s' (savedLine body.length path)

/-- The file got a part of the body, and was unlinked. -/
structure Gone (path body : Bytes) (s s' : World) : Prop where
  part : ∃ i, s'.log = s.log ++ [.opened path (some i), .unlinked path] ∧ s'.files.data i <+: body
  content : s'.files.read path = none
  printed : Gains s s' (errorLine path)

/-- One of the three, told of the response behind its header block. -/
inductive Ended (path : Bytes) (s s' : World) : Prop where
  | left (h : Left s s')
  | whole {block body : Bytes} (response : s.incoming = block ++ body)
      (header : IsHeaderBlock block) (short : block.length ≤ 1023) (h : Whole path body s s')
  | gone {block body : Bytes} (response : s.incoming = block ++ body)
      (header : IsHeaderBlock block) (h : Gone path body s s')

theorem Told.left {s s' s'' : World} {text : Bytes} (h : Told s s' text) (h' : Told s' s'' [])
    (hs : text.head? ≠ some 's'.toUInt8) : Left s s'' := by
  have hboth := h.trans h'
  rw [List.append_nil] at hboth
  exact ⟨text, hboth, hs⟩

/-- The descriptors and the connection do not matter. -/
theorem Left.elsewhere {s s' : World} {handles : Nat → Option Handle} {incoming : Bytes}
    (h : Left { s with handles := handles, incoming := incoming } s') : Left s s' := by
  obtain ⟨text, htold, hs⟩ := h
  exact ⟨text, ⟨htold.files, htold.log, htold.printed⟩, hs⟩

theorem errorLine_head (path : Bytes) : (errorLine path).head? ≠ some 's'.toUInt8 := by
  rw [show (errorLine path).head? = some 'f'.toUInt8 from rfl]
  decide

/-- A line that is printed, and the connection closed. -/
theorem meets_complaint {s : World} {p : Sys Unit} {text : Bytes} (socket : Nat)
    (h : Meets world p s fun _ s' => Told s s' text) (hs : text.head? ≠ some 's'.toUInt8) :
    Meets world (.bind p fun _ => sysClose socket) s fun _ s' => Left s s' :=
  .bind (h.weaken fun _ _ hp => (told_sysClose socket _).weaken fun _ _ hc => hp.left hc hs)

/-- `unlinkat` is taken to succeed. -/
theorem meets_unlink {path : Bytes} {f : Int → Sys Unit} {s : World} {post : Unit → World → Prop}
    (h : ∀ value, Meets world (f value)
      ({ s with files := s.files.unlink path }.record (.unlinked path)) post) :
    Meets world (.bind (status (.unlinkat path 0)) f) s post := by
  apply meets_status
  intro r hr
  have hok : 0 ≤ r.value := of_decide_eq_true (Bool.and_eq_true_iff.mp hr).2
  rw [show s.next (.unlinkat path 0) r =
    ({ s with files := s.files.unlink path } : World).record (.unlinked path) from
      if_neg (Int.not_lt.mpr hok)]
  exact h r.value

theorem read_unlink (fs : Files) (path : Bytes) : (fs.unlink path).read path = none := by
  rw [Files.read, Files.unlink_entry, Option.map_none]

/-! ## The file -/

section

variable {s : World} {socket output i : Nat} {path : Bytes}

/-- From the copy loop on, in a world where the file was opened and is empty. -/
theorem meets_fetchBody (expected : Option Nat) (hs : Connected s socket) (hne : socket ≠ output)
    (hhigh : 2 < output) (hopen : Filled s s output i []) (hentry : s.files.entry path = some i) :
    Meets world (fetchBody expected socket output path) s fun _ s' =>
      (s'.log = s.log ∧ s'.files.read path = some s.incoming ∧
        s.incoming.length ≤ maxFileSize ∧ Gains s s' (savedLine s.incoming.length path)) ∨
      s'.log = s.log ++ [.unlinked path] ∧ s'.files.read path = none ∧
        s'.files.data i <+: s.incoming ∧ Gains s s' (errorLine path) := by
  refine .bind ((meets_copyBody hs hne hhigh hopen).weaken ?_)
  rintro ⟨failed, total⟩ s₁ ⟨taken, hpart, hfilled, hdone⟩
  have hcopied : Gains s s₁ [] := by
    intro hr
    rw [hfilled.told.2] at hr
    exact ⟨hr, by rw [hfilled.told.1, List.append_nil]⟩
  refine .bind ((told_sysClose output s₁).weaken fun _ s₂ hclose₁ => ?_)
  refine .bind ((told_sysClose socket s₂).weaken fun _ s₃ hclose₂ => ?_)
  have hclose := hclose₁.trans hclose₂
  have hquiet : Gains s s₃ [] := hcopied.trans hclose.printed
  split
  · apply meets_unlink
    intro _
    refine (told_printError path _).weaken fun _ s' htold => .inr ⟨?_, ?_, ?_, ?_⟩
    · rw [htold.log, World.record, hclose.log, hfilled.log]
    · rw [htold.files]
      exact read_unlink _ _
    · rw [htold.files]
      change s₃.files.data i <+: s.incoming
      rw [hclose.files, hfilled.data]
      exact hpart
    · exact hquiet.trans htold.printed
  · rename_i hok
    simp only [Bool.or_eq_true, not_or, Bool.not_eq_true] at hok
    obtain ⟨rfl, htotal⟩ := hdone hok.1
    refine (told_savedLine total path s₃).weaken fun _ s' htold => .inl ⟨?_, ?_, ?_, ?_⟩
    · rw [htold.log, hclose.log, hfilled.log]
    · rw [htold.files, hclose.files, Files.read, hfilled.entry, hentry, Option.map_some,
        hfilled.data]
    · exact hfilled.bounded
    · rw [show s.incoming.length = total from htotal.symm]
      exact hquiet.trans htold.printed

/-- The file is open behind the path, and empty. -/
structure Created (path : Bytes) (output i : Nat) (s s' : World) : Prop where
  filled : Filled s' s' output i []
  entry : s'.files.entry path = some i
  others : ∀ fd, fd ≠ output → s'.handles fd = s.handles fd
  log : s'.log = s.log ++ [.opened path (some i)]
  incoming : s'.incoming = s.incoming
  quiet : Gains s s' []

theorem created_openat {r : Reply} (hfile : s.device path = false) (hneg : ¬ r.value < 0) :
    Created path r.value.toNat (s.files.create path).1 s
      (s.next (.openat path (oWronly ||| oCreat ||| oTrunc) 0o755) r) := by
  have hflags : (oWronly ||| oCreat ||| oTrunc) &&& oTrunc ≠ 0 := by decide
  have hnext : s.next (.openat path (oWronly ||| oCreat ||| oTrunc) 0o755) r =
      (({ s with files := (s.files.create path).2 } : World).record
        (.opened path (some (s.files.create path).1))).hold r.value.toNat
          (some (.file (s.files.create path).1 0)) := by
    simp only [World.next, if_neg hneg, hfile, Bool.false_eq_true, if_false, Disk.lookup,
      if_pos hflags, Disk.idle]
  rw [hnext]
  constructor
  · exact ⟨rfl, Files.create_data s.files path, if_pos rfl, fun _ _ => rfl, rfl, ⟨rfl, rfl⟩,
      Nat.zero_le _⟩
  · exact Files.create_entry s.files path
  · exact fun fd hfd => if_neg hfd
  · rfl
  · rfl
  · exact Told.rfl.printed

/-- Nothing is written to a file that `fchmod` fails on. -/
theorem meets_unchanged (socket : Nat) {s₁ : World} (h : Created path output i s s₁) :
    Meets world (do
      printError (ascii "fetch") (some path)
      sysClose output
      let _ ← status (.unlinkat path 0)
      sysClose socket) s₁ fun _ s' => Gone path s.incoming s s' := by
  refine .bind ((told_printError path s₁).weaken fun _ s₂ htold => ?_)
  refine .bind ((told_sysClose _ s₂).weaken fun _ s₃ hclose => ?_)
  apply meets_unlink
  intro _
  refine (told_sysClose socket _).weaken fun _ s' hclosed => ⟨⟨i, ?_, ?_⟩, ?_, ?_⟩
  · rw [hclosed.log, World.record, hclose.log, htold.log, h.log, List.append_assoc]
    rfl
  · rw [hclosed.files]
    change s₃.files.data _ <+: s.incoming
    rw [hclose.files, htold.files, h.filled.data]
    exact List.nil_prefix
  · rw [hclosed.files]
    exact read_unlink _ _
  · have hall := h.quiet.trans (htold.printed.trans (hclose.printed.trans hclosed.printed))
    rwa [List.append_nil, List.append_nil] at hall

/-- From the opening of the output file on. -/
theorem meets_fetchInto (expected : Option Nat) (path : Bytes) (hs : Connected s socket)
    (hfile : s.device path = false) :
    Meets world (fetchInto expected socket path) s fun _ s' =>
      Left s s' ∨ Whole path s.incoming s s' ∨ Gone path s.incoming s s' := by
  apply Meets.bind
  apply meets_ask
  intro r hr
  apply Meets.ret
  by_cases hneg : r.value < 0
  · rw [show s.next (.openat path (oWronly ||| oCreat ||| oTrunc) 0o755) r = s from if_pos hneg,
      show r.descriptor = none from if_pos hneg]
    exact (meets_complaint socket (told_printError path s) (errorLine_head path)).weaken
      fun _ _ h => .inl h
  · have hmay := (Bool.and_eq_true_iff.mp hr).2
    simp only [Bool.or_eq_true, Bool.and_eq_true, decide_eq_true_eq] at hmay
    obtain ⟨hthree, hfree⟩ := hmay.resolve_left hneg
    have hcreated := created_openat hfile hneg
    rw [show r.descriptor = some r.value.toNat from if_neg hneg]
    revert hcreated
    generalize s.next (.openat path (oWronly ||| oCreat ||| oTrunc) 0o755) r = s₁
    intro hcreated
    have hne : socket ≠ r.value.toNat := by
      rintro rfl
      cases hs.stream.symm.trans hfree
    have hconnected : Connected s₁ socket := ⟨(hcreated.others socket hne).trans hs.stream, hs.high⟩
    apply meets_status
    intro r' _
    have hchmod : s₁.next (.fchmod r.value.toNat 0o755) r' = s₁ := by
      unfold World.next
      split
      · rfl
      · rfl
    rw [hchmod]
    split
    · exact (meets_unchanged socket hcreated).weaken fun _ _ h => .inr (.inr h)
    · refine (meets_fetchBody expected hconnected hne (by omega) hcreated.filled
        hcreated.entry).weaken ?_
      rintro _ s' (⟨hlog, hread, hbound, hprints⟩ | ⟨hlog, hread, hpart, hprints⟩)
      · rw [hcreated.incoming] at hread hbound hprints
        exact .inr (.inl ⟨⟨_, hlog.trans hcreated.log⟩, hread, hbound, hcreated.quiet.trans hprints⟩)
      · rw [hcreated.incoming] at hpart
        refine .inr (.inr ⟨⟨_, ?_, hpart⟩, hread, hcreated.quiet.trans hprints⟩)
        rw [hlog, hcreated.log, List.append_assoc]
        rfl

end

/-! ## The command -/

theorem meets_fetchFrom {w : Word} {s : World} {socket : Nat} (host remote path : Bytes)
    (hs : Connected s socket) (hfile : s.device path = false) :
    Meets world (fetchFrom w socket host remote path) s fun _ s' => Ended path s s' := by
  have hfailed : ∀ incoming, Meets world (.bind
      (putLine (ascii "fetch: HTTP request failed or non-200 response")) fun _ => sysClose socket)
      { s with incoming := incoming } fun _ s' => Ended path s s' := by
    intro incoming
    exact (meets_complaint socket (told_putLine _ _) (by decide)).weaken fun _ s' h =>
      .left h.elsewhere
  refine .bind ((meets_sendRequest hs host remote).weaken ?_)
  rintro sent s₁ hsame
  rw [hsame]
  cases sent with
  | false => exact hfailed s.incoming
  | true =>
    refine .bind ((meets_readResponseHeader hs).weaken ?_)
    rintro result s₁ ⟨hworld, hblock⟩
    revert hblock hworld
    generalize s₁.incoming = body
    rintro rfl hblock
    cases result with
    | none => exact hfailed body
    | some header =>
      obtain ⟨hresponse, hheader, hshort⟩ := hblock header rfl
      have hinto : ∀ expected, Meets world (fetchInto expected socket path)
          { s with incoming := body } fun _ s' => Ended path s s' := by
        intro expected
        have hconnected : Connected { s with incoming := body } socket := ⟨hs.stream, hs.high⟩
        refine (meets_fetchInto expected path hconnected hfile).weaken ?_
        rintro _ s' (h | h | h)
        · exact .left h.elsewhere
        · exact .whole hresponse hheader hshort ⟨h.log, h.content, h.bounded, h.printed⟩
        · exact .gone hresponse hheader ⟨h.part, h.content, h.printed⟩
      dsimp only
      cases contentLength w header with
      | invalid =>
        exact (meets_complaint socket (told_putLine _ _) (by decide)).weaken fun _ s' h =>
          .left h.elsewhere
      | absent => exact hinto none
      | length value => exact hinto (some value)

/-- A connection, and nothing but a descriptor for it; or a complaint. -/
theorem meets_connectTcp (host : Bytes) (port : Nat) (s : World) :
    Meets world (connectTcp host port) s fun result s' =>
      match result with
      | none => Left s s'
      | some socket => Connected s' socket ∧ ∃ handles, s' = { s with handles := handles } := by
  unfold connectTcp
  cases parseIpv4 host with
  | none =>
    refine .bind ((told_putLine _ s).weaken fun _ s' h => .ret ⟨_, h, by decide⟩)
  | some address =>
    apply Meets.bind
    apply meets_ask
    intro r hr
    apply Meets.ret
    by_cases hneg : r.value < 0
    · rw [show s.next (.socket afInet sockStream 0) r = s from if_pos hneg,
        show r.descriptor = none from if_pos hneg]
      exact .bind ((told_printError _ s).weaken fun _ s' h => .ret ⟨_, h, errorLine_head _⟩)
    · have hmay := (Bool.and_eq_true_iff.mp hr).2
      simp only [Bool.or_eq_true, Bool.and_eq_true, decide_eq_true_eq] at hmay
      obtain ⟨hthree, _⟩ := hmay.resolve_left hneg
      rw [show s.next (.socket afInet sockStream 0) r =
          s.hold r.value.toNat (some .stream) from if_neg hneg,
        show r.descriptor = some r.value.toNat from if_neg hneg]
      apply meets_status
      intro r' _
      generalize hs₁ : s.hold r.value.toNat (some .stream) = s₁
      rw [show ∀ fd peer, s₁.next (.connect fd peer) r' = s₁ by
        intro fd peer
        unfold World.next
        split
        · rfl
        · rfl]
      subst hs₁
      split
      · refine .bind ((told_sysClose _ _).weaken fun _ s₂ hclose => ?_)
        refine .bind ((told_printError _ s₂).weaken fun _ s' h => .ret ?_)
        exact ⟨_, ⟨(hclose.trans h).files, (hclose.trans h).log, (hclose.trans h).printed⟩,
          errorLine_head _⟩
      · exact .ret ⟨⟨if_pos rfl, by omega⟩, _, rfl⟩

theorem meets_cmdFetch (w : Word) (argv : List Bytes) {s : World}
    (hfile : s.device (localPath argv) = false) :
    Meets world (cmdFetch w argv) s fun _ s' => Ended (localPath argv) s s' := by
  have husage : Meets world fetchUsage s fun _ s' => Ended (localPath argv) s s' :=
    (told_putLine _ s).weaken fun _ s' h => .left ⟨_, h, by decide⟩
  unfold cmdFetch
  split
  · rename_i name host portText remote path
    split
    · exact husage
    · rename_i port _
      split
      · exact husage
      · refine .bind ((meets_connectTcp host port s).weaken ?_)
        rintro (_ | socket) s₁ h
        · exact .ret (.left h)
        · obtain ⟨hconnected, handles, rfl⟩ := h
          refine (meets_fetchFrom host remote path hconnected hfile).weaken ?_
          rintro _ s' (h | ⟨hresponse, hheader, hshort, h⟩ | ⟨hresponse, hheader, h⟩)
          · exact .left h.elsewhere
          · exact .whole hresponse hheader hshort ⟨h.log, h.content, h.bounded, h.printed⟩
          · exact .gone hresponse hheader ⟨h.part, h.content, h.printed⟩
  · exact husage

/-! ## Exactly one -/

theorem Whole.saved {path block body : Bytes} {s s' : World} (h : Whole path body s s')
    (response : s.incoming = block ++ body) (header : IsHeaderBlock block)
    (short : block.length ≤ 1023) (hr : s'.refused = false) :
    FetchOutcome.saved.Holds path s s' := by
  obtain ⟨digits, hdecimal, htext⟩ := u64Text_decimal
    (Nat.lt_of_le_of_lt h.bounded maxFileSize_lt)
  refine ⟨block, body, digits, response, header, short, h.content, hdecimal, ?_⟩
  rw [(h.printed hr).2, savedLine, htext]

theorem not_saved_of_printed {path text : Bytes} {s s' : World}
    (h : s'.console = s.console ++ text) (hs : text.head? ≠ some 's'.toUInt8) :
    ¬ FetchOutcome.saved.Holds path s s' := by
  rintro ⟨block, body, digits, _, _, _, _, _, hc⟩
  rw [h] at hc
  rw [List.append_cancel_left hc] at hs
  exact hs rfl

/-- If something was opened, the file system is not untouched. -/
theorem not_untouched_of_log {path : Bytes} {s s' : World} {e : NameEvent} {log : List NameEvent}
    (h : s'.log = s.log ++ e :: log) : ¬ FetchOutcome.untouched.Holds path s s' := by
  rintro ⟨hlog, _⟩
  rw [h] at hlog
  simp at hlog

/-- What is removed was opened and unlinked. -/
theorem not_removed_of_log {path : Bytes} {s s' : World} {log : List NameEvent}
    (h : s'.log = s.log ++ log) (hlog : log.length < 2) :
    ¬ FetchOutcome.removed.Holds path s s' := by
  rintro ⟨_, _, _, _, _, he, _⟩
  rw [h] at he
  rw [List.append_cancel_left he] at hlog
  simp at hlog

theorem one_outcome {path : Bytes} {s s' : World} (h : Ended path s s') (hr : s'.refused = false) :
    ∃ outcome : FetchOutcome, outcome.Holds path s s' ∧
      ∀ other : FetchOutcome, other.Holds path s s' → other = outcome := by
  obtain ⟨text, htold, hs⟩ | ⟨hresponse, hheader, hshort, h⟩ | ⟨hresponse, hheader, h⟩ := h
  · refine ⟨.untouched, ⟨htold.log, htold.files⟩, ?_⟩
    rintro (_ | _ | _) hother
    · rfl
    · exact absurd hother (not_saved_of_printed (htold.printed hr).2 hs)
    · have hlog : s'.log = s.log ++ [] := by rw [htold.log, List.append_nil]
      exact absurd hother (not_removed_of_log hlog (by decide))
  · obtain ⟨i, hlog⟩ := h.log
    refine ⟨.saved, h.saved hresponse hheader hshort hr, ?_⟩
    rintro (_ | _ | _) hother
    · exact absurd hother (not_untouched_of_log hlog)
    · rfl
    · exact absurd hother (not_removed_of_log hlog (Nat.lt_succ_self 1))
  · obtain ⟨i, hlog, hpart⟩ := h.part
    refine ⟨.removed, ⟨_, _, i, hresponse, hheader, hlog, h.content, hpart, (h.printed hr).2⟩, ?_⟩
    rintro (_ | _ | _) hother
    · exact absurd hother (not_untouched_of_log hlog)
    · exact absurd hother (not_saved_of_printed (h.printed hr).2 (errorLine_head path))
    · rfl

/-- Where the console takes what is written to it and `LOCAL_PATH` names no
device, exactly one outcome holds; and `header[]` has room for every byte of the
block and the NUL behind it. -/
theorem cmd_fetch_leaves_the_file_whole_or_gone {w : Word} {argv : List Bytes} {s : World}
    {t : Trace Call Reply} (hruns : Runs (cmdFetch w argv) t ()) (hfollows : world.Follows s t)
    (hconsole : s.refused = false ∧ ConsoleTakes t) (hfile : s.device (localPath argv) = false) :
    (∃ outcome : FetchOutcome, outcome.Holds (localPath argv) s (world.after s t) ∧
      ∀ other : FetchOutcome, other.Holds (localPath argv) s (world.after s t) →
        other = outcome) ∧
    (∀ fd u c, Makes (readResponseHeader fd 1024) u c → Legal u →
      (received fd u).length + 1 < 1024) ∧
    ∀ fd u block, Runs (readResponseHeader fd 1024) u (some block) → block.length < 1024 := by
  refine ⟨?_, fun fd u c h hl => ?_, fun fd u block h => header_terminated h⟩
  · apply one_outcome ((meets_cmdFetch w argv hfile).returns hruns hfollows)
    rw [after_refused hconsole.2, hconsole.1]
  · have := header_room h hl
    rwa [List.length_nil, Nat.zero_add] at this

/-- What `fetch 10.0.2.2 80 / f` is answered: descriptors 3 and 4, the response byte
by byte up to its body, and the writes of the last line as `line` has them. -/
def helloReplies (line : List Int) : List Reply :=
  [3, 0, 4, 1, 17, 8, 23].map (⟨·, [], []⟩) ++
    (ascii "HTTP/1.0 200 OK\r\n\r\n").map (fun c => ⟨1, [c], []⟩) ++
    [⟨4, [], []⟩, ⟨0, [], []⟩, ⟨5, ascii "hello", []⟩, ⟨5, [], []⟩, ⟨0, [], []⟩, ⟨0, [], []⟩,
      ⟨0, [], []⟩] ++ line.map (⟨·, [], []⟩)

def helloArgv : List Bytes := ["fetch", "10.0.2.2", "80", "/", "f"].map ascii

def helloWorld (device : Bytes → Bool) : World :=
  .start Files.empty device (ascii "HTTP/1.0 200 OK\r\n\r\nhello")

def helloLine : List Int := [6, 1, 10, 1, 1]

theorem cmd_fetch_leaves_the_file_whole_or_gone_hello :
    ∃ t, Runs (cmdFetch .rv32 helloArgv) t () ∧ ∃ outcome : FetchOutcome,
      outcome.Holds (ascii "f") (helloWorld fun _ => false)
          (world.after (helloWorld fun _ => false) t) ∧
        ∀ other : FetchOutcome, other.Holds (ascii "f") (helloWorld fun _ => false)
          (world.after (helloWorld fun _ => false) t) → other = outcome := by
  obtain ⟨t, _, hruns, hfollows, hconsole⟩ := exists_runs_of_exec scripted 60
    (helloReplies helloLine) (p := cmdFetch .rv32 helloArgv)
    (P := fun t => world.Follows (helloWorld fun _ => false) t ∧ ConsoleTakes t)
    (by decide +kernel)
  exact ⟨t, hruns,
    (cmd_fetch_leaves_the_file_whole_or_gone hruns hfollows ⟨rfl, hconsole⟩ rfl).1⟩

/-- What was opened and is still there is neither untouched nor removed. -/
theorem not_holds {path : Bytes} {s s' : World} {e : NameEvent} (hlog : s'.log = s.log ++ [e])
    (hsaved : ¬ FetchOutcome.saved.Holds path s s') (outcome : FetchOutcome) :
    ¬ outcome.Holds path s s' := by
  cases outcome with
  | untouched => exact not_untouched_of_log hlog
  | saved => exact hsaved
  | removed => exact not_removed_of_log hlog (Nat.lt_succ_self 1)

/-- A console that fails leaves the whole file and no word of it; a device is said
to have the bytes and has none. -/
theorem cmd_fetch_silent_or_discarded :
    (∃ t, Runs (cmdFetch .rv32 helloArgv) t () ∧ world.Follows (helloWorld fun _ => false) t ∧
      ∀ outcome : FetchOutcome, ¬ outcome.Holds (ascii "f") (helloWorld fun _ => false)
        (world.after (helloWorld fun _ => false) t)) ∧
    ∃ t, Runs (cmdFetch .rv32 helloArgv) t () ∧ world.Follows (helloWorld fun _ => true) t ∧
      ConsoleTakes t ∧ ∀ outcome : FetchOutcome, ¬ outcome.Holds (ascii "f")
        (helloWorld fun _ => true) (world.after (helloWorld fun _ => true) t) := by
  constructor
  · obtain ⟨t, _, hruns, hfollows, hconsole, hlog⟩ := exists_runs_of_exec scripted 60
      (helloReplies [-5, -5, -5, -5, -5]) (p := cmdFetch .rv32 helloArgv)
      (P := fun t => world.Follows (helloWorld fun _ => false) t ∧
        (world.after (helloWorld fun _ => false) t).console = [] ∧
        (world.after (helloWorld fun _ => false) t).log = [.opened (ascii "f") (some 0)])
      (by decide +kernel)
    exact ⟨t, hruns, hfollows, not_holds hlog (not_saved_of_printed hconsole nofun)⟩
  · obtain ⟨t, _, hruns, hfollows, hconsole, hread, hlog⟩ := exists_runs_of_exec scripted 60
      (helloReplies helloLine) (p := cmdFetch .rv32 helloArgv)
      (P := fun t => world.Follows (helloWorld fun _ => true) t ∧ ConsoleTakes t ∧
        (world.after (helloWorld fun _ => true) t).files.read (ascii "f") = none ∧
        (world.after (helloWorld fun _ => true) t).log = [.opened (ascii "f") none])
      (by decide +kernel)
    refine ⟨t, hruns, hfollows, hconsole, not_holds hlog ?_⟩
    rintro ⟨_, body, _, _, _, _, hbody, _⟩
    cases hread.symm.trans hbody

end LinuxBuild.Payload
