import LinuxBuild.Disk
import LinuxBuild.FetchRun
import LinuxBuild.StatusLine

/-!
# The world `fetch` runs in

One connection, the file system and the console. Any call but `unlinkat` may
fail, and any transfer may be short, down to a byte. A path may also name a
device, which takes every byte and keeps none.
-/

namespace LinuxBuild.Payload

open Interaction

inductive Handle where
  | stream
  | file (inode pos : Nat)
  | device
  deriving DecidableEq, Repr

/-- What happened to names: a path that was opened, with the inode unless it is
a device, or unlinked. -/
inductive NameEvent where
  | opened (path : Bytes) (inode : Option Nat)
  | unlinked (path : Bytes)
  deriving DecidableEq, Repr

/-- `incoming` is what the server still sends before it closes, `console` what
descriptor 1 took, `refused` whether a write to it has failed. -/
structure World where
  files : Files
  device : Bytes → Bool
  handles : Nat → Option Handle
  incoming : Bytes
  console : Bytes
  refused : Bool
  log : List NameEvent

namespace World

def hold (s : World) (fd : Nat) (handle : Option Handle) : World :=
  { s with handles := fun d => if d = fd then handle else s.handles d }

def record (s : World) (e : NameEvent) : World := { s with log := s.log ++ [e] }

/-- A read of the connection counts what it stores, and nothing only at the end.
No file grows past `maxFileSize`, and no write of a byte or more writes nothing.
A descriptor that is handed out is not in use, and not a standard one. -/
def may (s : World) (c : Call) (r : Reply) : Bool :=
  c.allows r &&
    match c with
    | .socket _ _ _ | .openat _ _ _ =>
      r.value < 0 || (2 < r.value && s.handles r.value.toNat = none)
    | .read fd count =>
      match s.handles fd with
      | some .stream => r.value < 0 || (r.bytes = s.incoming.take r.value.toNat &&
          (r.value ≠ 0 || count = 0 || s.incoming = []))
      | _ => true
    | .write fd bytes =>
      (r.value ≠ 0 || bytes = []) &&
        match s.handles fd with
        | some (.file _ pos) => r.value < 0 || pos + r.value.toNat ≤ maxFileSize
        | _ => true
    | .unlinkat _ _ => 0 ≤ r.value
    | _ => true

def next (s : World) (c : Call) (r : Reply) : World :=
  if r.value < 0 then
    match c with
    | .write 1 _ => { s with refused := true }
    | _ => s
  else
    match c with
    | .socket _ _ _ => s.hold r.value.toNat (some .stream)
    | .openat path flags _ =>
      if s.device path then (s.record (.opened path none)).hold r.value.toNat (some .device)
      else
        let (i, files) := (Disk.idle s.files).lookup path flags
        ({ s with files := files }.record (.opened path (some i))).hold r.value.toNat
          (some (.file i 0))
    | .read fd _ =>
      match s.handles fd with
      | some .stream => { s with incoming := s.incoming.drop r.value.toNat }
      | some (.file i pos) => s.hold fd (some (.file i (pos + r.value.toNat)))
      | _ => s
    | .write fd bytes =>
      if fd = 1 then { s with console := s.console ++ bytes.take r.value.toNat }
      else
        match s.handles fd with
        | some (.file i pos) =>
          { s with files := s.files.writeAt i pos (bytes.take r.value.toNat) }.hold fd
            (some (.file i (pos + r.value.toNat)))
        | _ => s
    | .close fd => s.hold fd none
    | .unlinkat path _ => { s with files := s.files.unlink path }.record (.unlinked path)
    | _ => s

/-- Before a command: no descriptor but the standard ones is open. -/
def start (files : Files) (device : Bytes → Bool) (incoming : Bytes) : World where
  files := files
  device := device
  handles _ := none
  incoming := incoming
  console := []
  refused := false
  log := []

end World

def world : Monitor Call Reply World where
  may s c r := s.may c r = true
  must _ _ := True
  next := World.next

instance decidableWorldFollows (s : World) : (t : Trace Call Reply) → Decidable (world.Follows s t)
  | [] => .isTrue trivial
  | e :: t =>
    have := decidableWorldFollows (s.next e.1 e.2) t
    inferInstanceAs (Decidable (s.may e.1 e.2 = true ∧ world.Follows (s.next e.1 e.2) t))

def toConsole : Call → Bool
  | .write 1 _ => true
  | _ => false

/-- No write to the console fails. -/
def ConsoleTakes (t : Trace Call Reply) : Prop := ∀ e ∈ t, toConsole e.1 = true → 0 ≤ e.2.value

instance (t : Trace Call Reply) : Decidable (ConsoleTakes t) :=
  inferInstanceAs (Decidable (∀ e ∈ t, toConsole e.1 = true → 0 ≤ e.2.value))

theorem next_refused {s : World} {c : Call} {r : Reply}
    (h : toConsole c = true → 0 ≤ r.value) : (s.next c r).refused = s.refused := by
  unfold World.next
  split
  · split
    · have := h rfl
      omega
    · rfl
  · cases c with
    | openat path flags mode => simp only; split <;> rfl
    | read fd count => simp only; split <;> rfl
    | write fd bytes =>
      simp only
      split
      · rfl
      · split <;> rfl
    | _ => rfl

theorem after_refused {s : World} {t : Trace Call Reply} (h : ConsoleTakes t) :
    (world.after s t).refused = s.refused := by
  induction t generalizing s with
  | nil => rfl
  | cons e t ih =>
    rw [Monitor.after_cons, ih fun e he => h e (List.mem_cons_of_mem _ he)]
    exact next_refused (h e List.mem_cons_self)

/-! ## Single calls -/

section

variable {s : World} {fd : Nat} {α : Type}

/-- The rest of a program goes on from what a call makes of the world. -/
theorem meets_ask {c : Call} {f : Reply → Sys α} {post : α → World → Prop}
    (h : ∀ r, s.may c r = true → Meets world (f r) (s.next c r) post) :
    Meets world (.bind (.ask c) f) s post := by
  apply Meets.bind
  apply Meets.call trivial
  intro r hr
  exact .ret (h r hr)

theorem meets_status {c : Call} {f : Int → Sys α} {post : α → World → Prop}
    (h : ∀ r, s.may c r = true → Meets world (f r.value) (s.next c r) post) :
    Meets world (.bind (status c) f) s post := by
  apply Meets.bind
  apply meets_ask
  intro r hr
  exact .ret (h r hr)

end

/-! ## The console -/

/-- The console has the text behind what it had, unless a write to it failed. -/
def Gains (s s' : World) (text : Bytes) : Prop :=
  s'.refused = false → s.refused = false ∧ s'.console = s.console ++ text

/-- The text is printed, and no name or file changes. -/
structure Told (s s' : World) (text : Bytes) : Prop where
  files : s'.files = s.files
  log : s'.log = s.log
  printed : Gains s s' text

theorem Told.rfl {s : World} : Told s s [] :=
  ⟨Eq.refl _, Eq.refl _, fun h => ⟨h, (List.append_nil _).symm⟩⟩

theorem Gains.trans {s s' s'' : World} {a b : Bytes} (h : Gains s s' a) (h' : Gains s' s'' b) :
    Gains s s'' (a ++ b) := by
  intro hr
  obtain ⟨hr', hc'⟩ := h' hr
  obtain ⟨hr'', hc⟩ := h hr'
  exact ⟨hr'', by rw [hc', hc, List.append_assoc]⟩

theorem Told.trans {s s' s'' : World} {a b : Bytes} (h : Told s s' a) (h' : Told s' s'' b) :
    Told s s'' (a ++ b) :=
  ⟨h'.files.trans h.files, h'.log.trans h.log, h.printed.trans h'.printed⟩

/-- A write to the console takes at least a byte, or fails. -/
theorem told_write {s : World} {bytes : Bytes} {r : Reply} (h : s.may (.write 1 bytes) r = true)
    (hbytes : bytes ≠ []) :
    r.value < 0 ∧ (∀ text, Told s (s.next (.write 1 bytes) r) text) ∨
      0 < r.value ∧ Told s (s.next (.write 1 bytes) r) (bytes.take r.value.toNat) := by
  have hzero := (Bool.and_eq_true_iff.mp (Bool.and_eq_true_iff.mp h).2).1
  simp only [hbytes, decide_false, Bool.or_false, decide_eq_true_eq] at hzero
  by_cases hneg : r.value < 0
  · left
    refine ⟨hneg, fun text => ?_⟩
    rw [show s.next (.write 1 bytes) r = { s with refused := true } from if_pos hneg]
    exact ⟨rfl, rfl, nofun⟩
  · right
    refine ⟨by omega, ?_⟩
    rw [show s.next (.write 1 bytes) r =
      { s with console := s.console ++ bytes.take r.value.toNat } from if_neg hneg]
    exact ⟨rfl, rfl, fun hr => ⟨hr, rfl⟩⟩

/-- What is left to write and what was written are the text. -/
theorem told_putsRaw (text : Bytes) (s : World) :
    Meets world (putsRaw text) s fun _ s' => Told s s' text := by
  have hloop : Meets world (writeAll 1 text) s fun _ s' => Told s s' text := by
    apply Meets.loop fun x s' => ∃ done, text = done ++ x.1 ∧ Told s s' done
    · rintro ⟨rest, written⟩ s' ⟨done, rfl, htold⟩
      rw [writeTurn]
      by_cases hrest : rest = []
      · rw [if_pos hrest]
        apply Meets.ret
        rw [hrest, List.append_nil]
        exact htold
      · rw [if_neg hrest]
        apply Meets.bind
        apply meets_ask
        intro r hr
        apply Meets.ret
        obtain ⟨hneg, hlost⟩ | ⟨hpos, htook⟩ := told_write hr hrest
        · rw [if_pos (by omega)]
          exact .ret (htold.trans (hlost rest))
        · rw [if_neg (by omega)]
          refine .ret ⟨done ++ rest.take r.value.toNat, ?_, htold.trans htook⟩
          rw [List.append_assoc, List.take_append_drop]
    · exact ⟨[], rfl, .rfl⟩
  exact .bind (hloop.weaken fun _ _ h => .ret h)

/-- One text, then the program that goes on. -/
theorem told_putsRaw_bind {text rest : Bytes} {f : Unit → Sys Unit} {s : World}
    (h : ∀ s', Meets world (f ()) s' fun _ s'' => Told s' s'' rest) :
    Meets world (.bind (putsRaw text) f) s fun _ s' => Told s s' (text ++ rest) :=
  .bind ((told_putsRaw text s).weaken fun _ s' hs => (h s').weaken fun _ _ hs' => hs.trans hs')

theorem told_putLine (text : Bytes) (s : World) :
    Meets world (putLine text) s fun _ s' => Told s s' (text ++ ascii "\n") :=
  told_putsRaw_bind fun s' => told_putsRaw _ s'

theorem told_printDigits (digits : List Nat) (s : World) :
    Meets world (printDigits digits) s fun _ s' =>
      Told s s' (digits.map fun d => UInt8.ofNat (48 + d)) := by
  induction digits generalizing s with
  | nil => exact .ret .rfl
  | cons d digits ih =>
    apply Meets.bind
    apply Meets.bind
    apply meets_ask
    intro r hr
    refine .ret (.ret ?_)
    obtain ⟨_, hlost⟩ | ⟨hpos, htook⟩ := told_write hr (List.cons_ne_nil _ _)
    · exact (ih _).weaken fun _ _ hs => (hlost [UInt8.ofNat (48 + d)]).trans hs
    · rw [List.take_of_length_le (by simp only [List.length_singleton]; omega)] at htook
      exact (ih _).weaken fun _ _ hs => htook.trans hs

theorem told_printError (path : Bytes) (s : World) :
    Meets world (printError (ascii "fetch") (some path)) s fun _ s' => Told s s' (errorLine path) := by
  rw [errorLine, List.append_assoc, List.append_assoc, List.append_assoc]
  apply told_putsRaw_bind
  intro s
  apply told_putsRaw_bind
  intro s
  rw [← List.append_assoc]
  apply Meets.bind
  refine (told_putsRaw_bind fun s' => told_putsRaw path s').weaken fun _ s' hs => ?_
  exact (told_putsRaw _ s').weaken fun _ _ hs' => hs.trans hs'

theorem told_savedLine (n : Nat) (path : Bytes) (s : World) :
    Meets world (do
      putsRaw (ascii "saved ")
      printU64 n
      putsRaw (ascii " bytes to ")
      putLine path) s fun _ s' => Told s s' (savedLine n path) := by
  simp only [savedLine, List.append_assoc]
  apply told_putsRaw_bind
  intro s
  refine .bind ((told_printDigits _ s).weaken fun _ s' hs => ?_)
  refine (told_putsRaw_bind fun s => told_putLine path s).weaken fun _ _ hs' => ?_
  exact hs.trans hs'

/-- Closing a descriptor, once nothing is read or written any more. -/
theorem told_sysClose (fd : Nat) (s : World) :
    Meets world (sysClose fd) s fun _ s' => Told s s' [] := by
  apply meets_ask
  intro r _
  apply Meets.ret
  by_cases hneg : r.value < 0
  · rw [show s.next (.close fd) r = s from if_pos hneg]
    exact .rfl
  · rw [show s.next (.close fd) r = s.hold fd none from if_neg hneg]
    exact ⟨rfl, rfl, Told.rfl.printed⟩

/-! ## The connection -/

/-- The socket: not a standard descriptor, and open on the connection. -/
structure Connected (s : World) (socket : Nat) : Prop where
  stream : s.handles socket = some .stream
  high : 2 < socket

theorem next_write_stream {s : World} {socket : Nat} (h : Connected s socket) (bytes : Bytes)
    (r : Reply) : s.next (.write socket bytes) r = s := by
  have hone : socket ≠ 1 := by
    have := h.high
    omega
  by_cases hneg : r.value < 0
  · unfold World.next
    rw [if_pos hneg]
    split
    · rename_i heq
      cases heq
      exact absurd rfl hone
    · rfl
  · simp only [World.next, if_neg hneg, if_neg hone, h.stream]

theorem meets_sendRequest {s : World} {socket : Nat} (h : Connected s socket) (host path : Bytes) :
    Meets world (sendRequest socket host path) s fun _ s' => s' = s := by
  have hwrite : ∀ buffer, Meets world (writeAll socket buffer) s fun _ s' => s' = s := by
    intro buffer
    apply Meets.loop fun _ s' => s' = s
    · rintro ⟨rest, written⟩ s' rfl
      rw [writeTurn]
      split
      · exact .ret rfl
      · apply Meets.bind
        apply meets_ask
        intro r _
        rw [next_write_stream h]
        apply Meets.ret
        split
        · exact .ret rfl
        · exact .ret rfl
    · rfl
  unfold sendRequest
  induction requestTexts host path with
  | nil => exact .ret rfl
  | cons text texts ih =>
    refine .bind ((hwrite text).weaken ?_)
    rintro result _ rfl
    split
    · exact .ret rfl
    · exact ih

/-- A read of the connection: nothing of it is lost, and a count of zero is its end. -/
structure Taken (s s' : World) (r : Reply) : Prop where
  world : s' = { s with incoming := s'.incoming }
  incoming : s.incoming = r.bytes ++ s'.incoming
  length : 0 ≤ r.value → r.bytes.length = r.value.toNat
  atEnd : r.value = 0 → s.incoming = []

theorem taken_read {s : World} {socket count : Nat} {r : Reply} (h : Connected s socket)
    (hcount : count ≠ 0) (hmay : s.may (.read socket count) r = true) :
    Taken s (s.next (.read socket count) r) r := by
  obtain ⟨hallow, hmay⟩ := Bool.and_eq_true_iff.mp hmay
  simp only [Call.allows, Bool.and_eq_true, decide_eq_true_eq] at hallow
  simp only [h.stream, Bool.or_eq_true, Bool.and_eq_true, decide_eq_true_eq] at hmay
  by_cases hneg : r.value < 0
  · have hnone : r.bytes = [] := by
      rw [Reply.bytes, Int.toNat_of_nonpos (by omega), List.take_zero]
    rw [show s.next (.read socket count) r = s from if_pos hneg]
    exact ⟨rfl, by rw [hnone, List.nil_append], fun _ => by omega, fun _ => by omega⟩
  · obtain ⟨hbytes, hend⟩ := hmay.resolve_left hneg
    have hnext : s.next (.read socket count) r =
        { s with incoming := s.incoming.drop r.value.toNat } := by
      simp only [World.next, if_neg hneg, h.stream]
    rw [hnext]
    refine ⟨rfl, ?_, fun _ => ?_, fun hzero => ?_⟩
    · rw [hbytes, List.take_append_drop]
    · rw [Reply.bytes, List.length_take]
      omega
    · obtain (hne | hne) | hnil := hend
      · exact absurd hzero hne
      · exact absurd hne hcount
      · exact hnil

/-- What the rounds of `read_response_header` keep: the block so far, and the
rest of the response behind it. -/
structure Heading (s s' : World) (header : Bytes) : Prop where
  world : s' = { s with incoming := s'.incoming }
  incoming : s.incoming = header ++ s'.incoming
  unfinished : ∀ p, p <+: header → ¬ crlfCrlf <:+ p

theorem Heading.connected {s s' : World} {header : Bytes} {socket : Nat} (h : Heading s s' header)
    (hs : Connected s socket) : Connected s' socket := by
  rw [h.world]
  exact ⟨hs.stream, hs.high⟩

/-- A block that is returned is what was read of the connection. -/
theorem meets_readResponseHeader {s : World} {socket : Nat} (h : Connected s socket) :
    Meets world (readResponseHeader socket 1024) s fun result s' =>
      s' = { s with incoming := s'.incoming } ∧ ∀ block, result = some block →
        s.incoming = block ++ s'.incoming ∧ IsHeaderBlock block ∧ block.length ≤ 1023 := by
  apply Meets.loop fun header s' => Heading s s' header
  · intro header s' hs
    rw [headerTurn]
    split
    · rename_i hroom
      apply meets_ask
      intro r hr
      have htaken := taken_read (hs.connected h) (by decide) hr
      revert htaken
      generalize s'.next (.read socket 1) r = s''
      intro htaken
      have hworld : s'' = { s with incoming := s''.incoming } := by
        rw [htaken.world, hs.world]
      split
      · exact .ret ⟨hworld, fun block hblock => by cases hblock⟩
      · have hallow := (Bool.and_eq_true_iff.mp hr).1
        simp only [Call.allows, Bool.and_eq_true, decide_eq_true_eq] at hallow
        obtain ⟨c, rest, hdata⟩ := List.exists_cons_of_length_pos (l := r.data) (by omega)
        have hone : r.value.toNat = 1 := by omega
        have hbytes : r.bytes = [c] := by rw [Reply.bytes, hone, hdata]; rfl
        have hincoming : s.incoming = (header ++ [c]) ++ s''.incoming := by
          rw [hs.incoming, htaken.incoming, hbytes, List.append_assoc]
        simp only [hdata, List.headD_cons]
        split
        · rename_i hsuffix
          refine .ret ⟨hworld, fun block hblock => ?_⟩
          split at hblock
          · cases hblock
            refine ⟨hincoming, headerBlock_snoc hs.unfinished (List.isSuffixOf_iff_suffix.mp hsuffix), ?_⟩
            rw [List.length_append, List.length_singleton]
            omega
          · cases hblock
        · rename_i hsuffix
          refine .ret ⟨hworld, hincoming, fun p hp => ?_⟩
          obtain rfl | hp := List.prefix_concat_iff.mp hp
          · exact fun hs => hsuffix (List.isSuffixOf_iff_suffix.mpr hs)
          · exact hs.unfinished p hp
    · exact .ret ⟨hs.world, fun block hblock => by cases hblock⟩
  · exact ⟨rfl, rfl, fun p hp => by simp [List.prefix_nil.mp hp, crlfCrlf]⟩

/-- `header[]` has room for every byte that is read. -/
theorem header_room {fd capacity : Nat} {header : Bytes} {t : Trace Call Reply} {c : Call}
    (h : Makes (.loop (headerTurn fd capacity) header) t c) (hl : Legal t) :
    header.length + (received fd t).length + 1 < capacity := by
  revert hl
  refine makes_induction (motive := fun header t _ => Legal t →
    header.length + (received fd t).length + 1 < capacity) ?_ ?_ h
  · intro header t c hturn hl
    rw [headerTurn] at hturn
    split at hturn
    · obtain hask | ⟨u, v, r, rfl, _, hmakes⟩ := makes_bind.mp hturn
      · obtain ⟨rfl, _⟩ := makes_ask.mp hask
        assumption
      · split at hmakes
        · exact absurd hmakes not_makes_ret
        · dsimp only at hmakes
          split at hmakes
          · exact absurd hmakes not_makes_ret
          · exact absurd hmakes not_makes_ret
    · exact absurd hturn not_makes_ret
  · intro header next t u c hturn ih hl
    obtain ⟨hlt, hlu⟩ := legal_append.mp hl
    have := ih hlu
    obtain ⟨_, hy⟩ | ⟨c, hreceived, hy⟩ := headerTurn_cases hturn hlt
    · cases hy
    · split at hy
      · cases hy
      · cases hy
        rw [received_append, hreceived, List.length_append]
        rw [List.length_append] at this
        omega

/-- A block has room for the NUL behind it. -/
theorem header_terminated {fd capacity : Nat} {header block : Bytes} {t : Trace Call Reply}
    (h : Runs (.loop (headerTurn fd capacity) header) t (some block)) : block.length < capacity := by
  generalize hresult : some block = result at h
  refine loop_induction (motive := fun _ _ result => some block = result → block.length < capacity)
    ?_ (fun _ _ _ _ _ _ _ ih => ih) h hresult
  intro header t result hturn hresult
  rw [headerTurn] at hturn
  split at hturn
  · obtain ⟨r, u, rfl, hu⟩ := runs_ask_bind.mp hturn
    split at hu
    · cases (runs_ret.mp hu).2
      cases hresult
    · dsimp only at hu
      split at hu
      · cases (runs_ret.mp hu).2
        split at hresult
        · cases hresult
          rw [List.length_append, List.length_singleton]
          assumption
        · cases hresult
      · cases (runs_ret.mp hu).2
  · cases (runs_ret.mp hturn).2
    cases hresult

/-! ## The file -/

/-- The bytes the file has, and what else is as it was. -/
structure Filled (s s' : World) (output i : Nat) (done : Bytes) : Prop where
  entry : s'.files.entry = s.files.entry
  data : s'.files.data i = done
  handle : s'.handles output = some (.file i done.length)
  others : ∀ fd, fd ≠ output → s'.handles fd = s.handles fd
  log : s'.log = s.log
  told : s'.console = s.console ∧ s'.refused = s.refused
  bounded : done.length ≤ maxFileSize

theorem filled_write {s s' : World} {output i : Nat} {done bytes : Bytes} {r : Reply}
    (h : Filled s s' output i done) (hhigh : 2 < output)
    (hmay : s'.may (.write output bytes) r = true) :
    Filled s (s'.next (.write output bytes) r) output i (done ++ bytes.take r.value.toNat) ∧
      (s'.next (.write output bytes) r).incoming = s'.incoming := by
  have hone : output ≠ 1 := by omega
  obtain ⟨hallow, hmay⟩ := Bool.and_eq_true_iff.mp hmay
  simp only [Call.allows, decide_eq_true_eq] at hallow
  have hroom := (Bool.and_eq_true_iff.mp hmay).2
  simp only [h.handle, Bool.or_eq_true, decide_eq_true_eq] at hroom
  by_cases hneg : r.value < 0
  · have hnext : s'.next (.write output bytes) r = s' := by
      unfold World.next
      rw [if_pos hneg]
      split
      · rename_i heq
        cases heq
        exact absurd rfl hone
      · rfl
    rw [hnext, Int.toNat_of_nonpos (by omega), List.take_zero, List.append_nil]
    exact ⟨h, rfl⟩
  · have hlength : (bytes.take r.value.toNat).length = r.value.toNat := by
      rw [List.length_take]
      omega
    have hnext : s'.next (.write output bytes) r =
        ({ s' with files := s'.files.setData i (done ++ bytes.take r.value.toNat) } : World).hold
          output (some (.file i (done.length + r.value.toNat))) := by
      simp only [World.next, if_neg hneg, if_neg hone, h.handle]
      rw [← h.data, Files.writeAt_end]
    rw [hnext]
    refine ⟨⟨h.entry, Files.setData_data _ _ _, ?_, ?_, h.log, h.told, ?_⟩, rfl⟩
    · rw [List.length_append, hlength]
      exact if_pos rfl
    · intro fd hfd
      exact (if_neg hfd).trans (h.others fd hfd)
    · rw [List.length_append, hlength]
      exact hroom.resolve_left hneg

theorem meets_writeAll_file {s s₁ : World} {output i : Nat} {done : Bytes} (buffer : Bytes)
    (h : Filled s s₁ output i done) (hhigh : 2 < output) :
    Meets world (writeAll output buffer) s₁ fun result s' => ∃ part, part <+: buffer ∧
      Filled s s' output i (done ++ part) ∧ s'.incoming = s₁.incoming ∧
      (¬ result < 0 → part = buffer) := by
  apply Meets.loop fun x s' => ∃ part, buffer = part ++ x.1 ∧ Filled s s' output i (done ++ part) ∧
    s'.incoming = s₁.incoming
  · rintro ⟨rest, written⟩ s' ⟨part, rfl, hfilled, hincoming⟩
    rw [writeTurn]
    by_cases hrest : rest = []
    · rw [if_pos hrest, hrest, List.append_nil]
      exact .ret ⟨part, List.prefix_rfl, hfilled, hincoming, fun _ => rfl⟩
    · rw [if_neg hrest]
      apply Meets.bind
      apply meets_ask
      intro r hr
      apply Meets.ret
      obtain ⟨hfilled', hincoming'⟩ := filled_write hfilled hhigh hr
      have hzero := (Bool.and_eq_true_iff.mp (Bool.and_eq_true_iff.mp hr).2).1
      simp only [hrest, decide_false, Bool.or_false, decide_eq_true_eq] at hzero
      rw [List.append_assoc] at hfilled'
      split
      · rename_i hle
        rw [Int.toNat_of_nonpos hle, List.take_zero, List.append_nil] at hfilled'
        exact .ret ⟨part, List.prefix_append _ _, hfilled', hincoming'.trans hincoming,
          fun hneg => by omega⟩
      · refine .ret ⟨part ++ rest.take r.value.toNat, ?_, hfilled', hincoming'.trans hincoming⟩
        rw [List.append_assoc, List.take_append_drop]
  · exact ⟨[], rfl, by rwa [List.append_nil], rfl⟩

/-- The copy loop keeps what it has read of the body in the file. -/
theorem meets_copyBody {s : World} {socket output i : Nat} (hs : Connected s socket)
    (hne : socket ≠ output) (hhigh : 2 < output) (hopen : Filled s s output i []) :
    Meets world (copyBody socket output) s fun result s' => ∃ taken, taken <+: s.incoming ∧
      Filled s s' output i taken ∧
      (result.1 = false → taken = s.incoming ∧ result.2 = taken.length) := by
  apply Meets.loop fun total s' => ∃ taken, s.incoming = taken ++ s'.incoming ∧
    Filled s s' output i taken ∧ total = taken.length
  · rintro total s' ⟨taken, hincoming, hfilled, rfl⟩
    rw [bodyTurn]
    apply meets_ask
    intro r hr
    have hconnected : Connected s' socket := ⟨(hfilled.others socket hne).trans hs.stream, hs.high⟩
    have htaken := taken_read hconnected (by decide) hr
    revert htaken
    generalize s'.next (.read socket 1024) r = s''
    intro htaken
    have hfilled' : Filled s s'' output i taken := by
      rw [htaken.world]
      exact { hfilled with }
    have hpart : taken <+: s.incoming := ⟨_, hincoming.symm⟩
    split
    · rename_i hzero
      refine .ret ⟨taken, hpart, hfilled', fun _ => ⟨?_, rfl⟩⟩
      rw [hincoming, htaken.atEnd hzero, List.append_nil]
    · split
      · exact .ret ⟨taken, hpart, hfilled', nofun⟩
      · have hlength := htaken.length (by omega)
        refine .bind ((meets_writeAll_file r.bytes hfilled' hhigh).weaken ?_)
        rintro result s₂ ⟨part, hpart, hfilled₂, hincoming₂, hwhole⟩
        split
        · refine .ret ⟨taken ++ part, ?_, hfilled₂, nofun⟩
          rw [hincoming, htaken.incoming]
          exact (List.prefix_append_right_inj taken).mpr (hpart.trans (List.prefix_append _ _))
        · rename_i hok
          obtain rfl := hwhole hok
          refine .ret ⟨taken ++ r.bytes, ?_, hfilled₂, ?_⟩
          · rw [hincoming, htaken.incoming, hincoming₂, List.append_assoc]
          · have hbound := hfilled₂.bounded
            rw [List.length_append, hlength] at hbound ⊢
            exact Nat.mod_eq_of_lt (Nat.lt_of_le_of_lt hbound maxFileSize_lt)
  · exact ⟨[], rfl, hopen, rfl⟩

end LinuxBuild.Payload
