import Mathlib.Data.List.GetD
import LinuxBuild.Observed
import LinuxBuild.Writes

/-!
# What `ls` and `cat` print

The console shows the names of a directory and the bytes of a file, however the
kernel hands them out and however little it takes of a write.
-/

namespace LinuxBuild.Payload.Listing

open Interaction Watched

/-! ## Directory entries -/

/-- A `struct linux_dirent64`; `head` has `d_ino` and `d_off`. -/
structure Dirent where
  head : Bytes
  type : UInt8
  name : Bytes
  padding : Bytes
  head_length : head.length = 16
  plain : 0 ∉ name
  short : 20 + name.length + padding.length < 65536

namespace Dirent

def reclen (e : Dirent) : Nat := 20 + e.name.length + e.padding.length

/-- The bytes of an entry, whose name ends in a NUL. -/
def record (e : Dirent) : Bytes :=
  e.head ++ ([UInt8.ofNat e.reclen, UInt8.ofNat (e.reclen / 256), e.type] ++
    (e.name ++ 0 :: e.padding))

/-- What `ls` prints of an entry; 4 is `DT_DIR`. -/
def line (e : Dirent) : Bytes := e.name ++ ((if e.type = 4 then ascii "/" else []) ++ ascii "  ")

theorem length_record (e : Dirent) : e.record.length = e.reclen := by
  simp only [record, reclen, List.length_append, e.head_length, List.length_cons, List.length_nil]
  omega

section

variable {e : Dirent} {front back data : Bytes} (h : data = front ++ (e.record ++ back))

include h

/-- The bytes behind `d_ino` and `d_off`. -/
theorem getD_data (i : Nat) : data.getD (front.length + 16 + i) 0 =
    ([UInt8.ofNat e.reclen, UInt8.ofNat (e.reclen / 256), e.type] ++
      (e.name ++ 0 :: e.padding) ++ back).getD i 0 := by
  rw [h, List.getD_append_right _ _ _ _ (by omega), record, List.append_assoc,
    List.getD_append_right _ _ _ _ (by rw [e.head_length]; omega)]
  congr 1
  rw [e.head_length]
  omega

theorem type_data : data.getD (front.length + 18) 0 = e.type := getD_data h 2

theorem reclen_data {r : Reply} (hr : r.data = data) :
    r.u16 (front.length + 16) = e.reclen := by
  have hlow : data.getD (front.length + 16) 0 = UInt8.ofNat e.reclen := getD_data h 0
  have hhigh : data.getD (front.length + 16 + 1) 0 = UInt8.ofNat (e.reclen / 256) := getD_data h 1
  rw [Reply.u16, hr, hlow, hhigh, UInt8.toNat_ofNat', UInt8.toNat_ofNat']
  have hshort : e.reclen < 65536 := e.short
  omega

theorem name_data {r : Reply} (hr : r.data = data) : r.text (front.length + 19) = e.name := by
  have hsplit : data = (front ++ (e.head ++
      [UInt8.ofNat e.reclen, UInt8.ofNat (e.reclen / 256), e.type])) ++
        (e.name ++ 0 :: (e.padding ++ back)) := by
    rw [h]
    simp [record]
  have hlength : (front ++ (e.head ++
      [UInt8.ofNat e.reclen, UInt8.ofNat (e.reclen / 256), e.type])).length =
        front.length + 19 := by
    simp [e.head_length]
  rw [Reply.text, hr, hsplit, ← hlength, List.drop_left]
  exact cstr_append e.plain rfl

end

end Dirent

/-- What one `getdents64` stores. -/
structure Batch where
  entries : List Dirent
  some : entries ≠ []

def Batch.record (b : Batch) : Bytes := b.entries.flatMap Dirent.record

def Batch.lines (b : Batch) : Bytes := b.entries.flatMap Dirent.line

theorem Batch.record_pos (b : Batch) : 0 < b.record.length := by
  obtain ⟨entries, hsome⟩ := b
  cases entries with
  | nil => exact absurd rfl hsome
  | cons e entries =>
    rw [Batch.record, List.flatMap_cons, List.length_append, e.length_record, Dirent.reclen]
    omega

/-! ## Directories and files -/

/-- What is open, with what it has not handed out yet and whether it fails then. -/
inductive Opened where
  | nothing
  | directory (fd : Nat) (batches : List Batch) (broken : Bool)
  | file (fd : Nat) (rest : Bytes) (broken : Bool)

def Opened.Has (fd : Nat) : Opened → Prop
  | .nothing => False
  | .directory n _ _ | .file n _ _ => n = fd

/-- The answer behind the last byte. -/
def EndsWith (broken : Bool) (value : Int) : Prop := if broken then value < 0 else value = 0

/-- A kernel with directories and files, that takes at least one byte of a
write to the console and hands out at least one byte of a file. -/
structure FileKernel (ε : Type) extends Watched Call Reply ε UInt8 Opened where
  directory? : Bytes → Option (List Batch × Bool)
  file? : Bytes → Option (Bytes × Bool)
  write : ∀ e bytes, bytes ≠ [] → ∃ n : Nat, 0 < n ∧ n ≤ bytes.length ∧
    (answer e (.write 1 bytes)).1.value = n ∧
    shown (answer e (.write 1 bytes)).2 = shown e ++ bytes.take n ∧
    known (answer e (.write 1 bytes)).2 = known e
  quiet : ∀ e c, isWrite c = false → shown (answer e c).2 = shown e
  opensDirectory : ∀ e path, known e = .nothing →
    let x := answer e (.openat path (oRdonly ||| oDirectory) 0)
    match directory? path with
    | none => x.1.value < 0 ∧ known x.2 = .nothing
    | some (batches, broken) =>
      0 ≤ x.1.value ∧ known x.2 = .directory x.1.value.toNat batches broken
  opensFile : ∀ e path, known e = .nothing →
    let x := answer e (.openat path oRdonly 0)
    match file? path with
    | none => x.1.value < 0 ∧ known x.2 = .nothing
    | some (content, broken) =>
      0 ≤ x.1.value ∧ known x.2 = .file x.1.value.toNat content broken
  lists : ∀ e fd batch batches broken, known e = .directory fd (batch :: batches) broken →
    let x := answer e (.getdents64 fd 1024)
    x.1.value = batch.record.length ∧ batch.record <+: x.1.data ∧
      known x.2 = .directory fd batches broken
  listed : ∀ e fd broken, known e = .directory fd [] broken →
    let x := answer e (.getdents64 fd 1024)
    EndsWith broken x.1.value ∧ known x.2 = .directory fd [] broken
  reads : ∀ e fd rest broken, known e = .file fd rest broken → rest ≠ [] →
    let x := answer e (.read fd 512)
    ∃ n : Nat, 0 < n ∧ n ≤ rest.length ∧ x.1.value = n ∧ x.1.data.take n = rest.take n ∧
      known x.2 = .file fd (rest.drop n) broken
  hasRead : ∀ e fd broken, known e = .file fd [] broken →
    let x := answer e (.read fd 512)
    EndsWith broken x.1.value ∧ known x.2 = .file fd [] broken
  closes : ∀ e fd, (known e).Has fd → known (answer e (.close fd)).2 = .nothing

/-- What `print_error` prints. -/
def errorText (command target : Bytes) : Bytes :=
  command ++ (ascii ": failed" ++ (ascii ": " ++ target ++ ascii "\n"))

namespace FileKernel

variable {ε : Type} (k : FileKernel ε)

/-- What `ls` prints of a path. -/
def lsText (path : Bytes) : Bytes :=
  match k.directory? path with
  | none => errorText (ascii "ls") path
  | some (batches, broken) => batches.flatMap Batch.lines ++
      (if broken then errorText (ascii "ls") path else []) ++ ascii "\n"

/-- What `cat` prints of one path. -/
def catText (path : Bytes) : Bytes :=
  match k.file? path with
  | none => errorText (ascii "cat") path
  | some (content, broken) => content ++ if broken then errorText (ascii "cat") path else []

variable {k} {s : Opened}

/-! ## Printing -/

theorem shows_writeLoop {rest : Bytes} {written : Nat} :
    k.Shows s (.loop (writeTurn 1) (rest, written)) fun n out s' =>
      0 ≤ n ∧ out = rest ∧ s' = s := by
  induction hlength : rest.length using Nat.strongRecOn generalizing rest written with
  | ind length ih =>
    apply shows_loop
    by_cases hrest : rest = []
    · rw [writeTurn, if_pos hrest]
      exact shows_ret ⟨Int.natCast_nonneg _, hrest.symm, rfl⟩
    · rw [writeTurn, if_neg hrest]
      have hwrite : k.Shows s (sysWrite 1 rest) fun count out s' => ∃ n : Nat, 0 < n ∧
          n ≤ rest.length ∧ count = n ∧ out = rest.take n ∧ s' = s := by
        apply Shows.bind (R := fun (r : Reply) out s' => ∃ n : Nat, 0 < n ∧ n ≤ rest.length ∧
          r.value = n ∧ out = rest.take n ∧ s' = s)
        · apply shows_ask
          intro e he
          obtain ⟨n, hpos, hle, hvalue, hshown, hknown⟩ := k.write e rest hrest
          exact ⟨rest.take n, hshown, n, hpos, hle, hvalue, rfl, hknown.trans he⟩
        · rintro r out s₁ ⟨n, hpos, hle, hvalue, rfl, rfl⟩
          exact shows_ret ⟨n, hpos, hle, hvalue, List.append_nil _, rfl⟩
      apply hwrite.bind
      rintro count out s₁ ⟨n, hpos, hle, rfl, rfl, rfl⟩
      rw [if_neg (by omega), Int.toNat_natCast]
      apply shows_ret
      apply (ih (rest.drop n).length (by rw [List.length_drop]; omega) rfl).mono
      rintro m out s' ⟨hm, rfl, rfl⟩
      exact ⟨hm, by rw [List.append_nil, List.take_append_drop], rfl⟩

theorem prints_putsRaw (text : Bytes) : k.Prints s (putsRaw text) text := by
  apply Shows.bind shows_writeLoop
  rintro n out s₁ ⟨_, rfl, rfl⟩
  exact shows_ret ⟨List.append_nil _, rfl⟩

theorem prints_putLine (text : Bytes) : k.Prints s (putLine text) (text ++ ascii "\n") :=
  (prints_putsRaw text).append (prints_putsRaw _)

theorem prints_printError (command target : Bytes) :
    k.Prints s (printError command (some target)) (errorText command target) := by
  apply (prints_putsRaw command).append
  apply (prints_putsRaw _).append
  exact ((prints_putsRaw _).append (prints_putsRaw target)).append (prints_putsRaw _)

theorem shows_sysClose {fd : Nat} (h : s.Has fd) : k.Shows s (sysClose fd) fun _ out s' =>
    out = [] ∧ s' = .nothing := by
  apply Shows.bind (R := fun _ out s' => out = [] ∧ s' = .nothing)
  · apply shows_ask
    intro e he
    exact ⟨[], by rw [k.quiet _ _ rfl, List.append_nil], rfl, k.closes e fd (he ▸ h)⟩
  · rintro _ _ _ ⟨rfl, rfl⟩
    exact shows_ret ⟨rfl, rfl⟩

/-! ## `ls` -/

/-- The entries of a buffer from one of them on. -/
theorem shows_entries {r : Reply} {before after : List Dirent}
    (hvalue : r.value = ((before ++ after).flatMap Dirent.record).length)
    (hdata : (before ++ after).flatMap Dirent.record <+: r.data) :
    k.Shows s (.loop (entryTurn r) (before.flatMap Dirent.record).length)
      fun _ out s' => out = after.flatMap Dirent.line ∧ s' = s := by
  induction after generalizing before with
  | nil =>
    apply shows_loop
    rw [entryTurn, if_neg (by rw [hvalue, List.append_nil]; omega)]
    exact shows_ret ⟨rfl, rfl⟩
  | cons e after ih =>
    obtain ⟨tail, htail⟩ := hdata
    have hsplit : r.data = before.flatMap Dirent.record ++
        (e.record ++ (after.flatMap Dirent.record ++ tail)) := by
      rw [← htail]
      simp
    have hnext : (before.flatMap Dirent.record).length + e.reclen =
        ((before ++ [e]).flatMap Dirent.record).length := by
      simp [e.length_record]
    have hroom : ((before.flatMap Dirent.record).length : Int) < r.value := by
      rw [hvalue, List.flatMap_append, List.flatMap_cons, List.length_append, List.length_append,
        e.length_record, Dirent.reclen]
      omega
    apply shows_loop
    rw [entryTurn, if_pos hroom, Dirent.name_data hsplit rfl, Dirent.type_data hsplit,
      Dirent.reclen_data hsplit rfl, hnext]
    apply (prints_putsRaw e.name).bind
    have hmark : k.Prints s (if e.type = 4 then putsRaw (ascii "/") else pure ())
        (if e.type = 4 then ascii "/" else []) := by
      by_cases hdir : e.type = 4
      · rw [if_pos hdir, if_pos hdir]
        exact prints_putsRaw _
      · rw [if_neg hdir, if_neg hdir]
        exact prints_ret
    apply hmark.bind
    apply (prints_putsRaw _).bind
    apply shows_ret
    have hmore : before ++ e :: after = (before ++ [e]) ++ after := by simp
    rw [hmore] at hvalue
    apply (ih hvalue ⟨tail, by rw [← hmore, htail]⟩).mono
    rintro _ out s' ⟨rfl, rfl⟩
    refine ⟨?_, rfl⟩
    rw [List.flatMap_cons, Dirent.line]
    simp

theorem shows_batches {fd : Nat} {path : Bytes} {batches : List Batch} {broken : Bool} :
    k.Shows (.directory fd batches broken) (.loop (lsTurn fd path) ()) fun _ out s' =>
      out = batches.flatMap Batch.lines ++ (if broken then errorText (ascii "ls") path else []) ∧
        s' = .directory fd [] broken := by
  induction batches with
  | nil =>
    apply shows_loop
    apply Shows.bind (R := fun (r : Reply) out s' => EndsWith broken r.value ∧ out = [] ∧
      s' = .directory fd [] broken)
    · apply shows_ask
      intro e he
      obtain ⟨hends, hknown⟩ := k.listed e fd broken he
      exact ⟨[], by rw [k.quiet _ _ rfl, List.append_nil], hends, rfl, hknown⟩
    · rintro r _ _ ⟨hends, rfl, rfl⟩
      cases broken with
      | true =>
        have hvalue : r.value < 0 := hends
        rw [if_pos (by omega), if_pos hvalue]
        apply (prints_printError _ _).bind
        exact shows_ret ⟨by simp, rfl⟩
      | false =>
        have hvalue : r.value = 0 := hends
        rw [if_pos (by omega), if_neg (by omega)]
        apply prints_ret.bind
        exact shows_ret ⟨rfl, rfl⟩
  | cons batch batches ih =>
    apply shows_loop
    apply Shows.bind (R := fun (r : Reply) out s' => r.value = batch.record.length ∧
      batch.record <+: r.data ∧ out = [] ∧ s' = .directory fd batches broken)
    · apply shows_ask
      intro e he
      obtain ⟨hvalue, hdata, hknown⟩ := k.lists e fd batch batches broken he
      exact ⟨[], by rw [k.quiet _ _ rfl, List.append_nil], hvalue, hdata, rfl, hknown⟩
    · rintro r _ _ ⟨hvalue, hdata, rfl, rfl⟩
      have hpos := batch.record_pos
      rw [if_neg (by omega)]
      apply Shows.bind (@shows_entries _ _ _ _ [] batch.entries hvalue hdata)
      rintro _ _ _ ⟨rfl, rfl⟩
      apply shows_ret
      apply ih.mono
      rintro _ _ _ ⟨rfl, rfl⟩
      exact ⟨by simp [Batch.lines], rfl⟩

theorem shows_sysOpenat {path : Bytes} {flags : Nat} {R : Int → Opened → Prop}
    (h : ∀ e, k.known e = s → R (k.answer e (.openat path flags 0)).1.value
      (k.known (k.answer e (.openat path flags 0)).2)) :
    k.Shows s (sysOpenat path flags 0) fun fd out s' => ∃ value,
      fd = (if value < 0 then none else some value.toNat) ∧ out = [] ∧ R value s' := by
  apply Shows.bind (R := fun (r : Reply) out s' => out = [] ∧ R r.value s')
  · apply shows_ask
    intro e he
    exact ⟨[], by rw [k.quiet _ _ rfl, List.append_nil], rfl, h e he⟩
  · rintro r _ s₁ ⟨rfl, hr⟩
    exact shows_ret ⟨r.value, rfl, rfl, hr⟩

theorem prints_cmdLs (argv : List Bytes) :
    k.Prints .nothing (cmdLs argv) (k.lsText (argv.getD 1 (ascii "."))) := by
  rw [cmdLs, lsText]
  generalize argv.getD 1 (ascii ".") = path
  cases hdir : k.directory? path with
  | none =>
    apply Shows.bind (shows_sysOpenat (R := fun value s' => value < 0 ∧ s' = .nothing) ?_)
    · rintro _ _ _ ⟨value, rfl, rfl, hvalue, rfl⟩
      rw [if_pos hvalue]
      exact prints_printError _ _
    · intro e he
      have hopen := k.opensDirectory e path he
      rwa [hdir] at hopen
  | some found =>
    obtain ⟨batches, broken⟩ := found
    apply Shows.bind (shows_sysOpenat (R := fun value s' =>
      0 ≤ value ∧ s' = .directory value.toNat batches broken) ?_)
    · rintro _ _ _ ⟨value, rfl, rfl, hvalue, rfl⟩
      rw [if_neg (by omega)]
      apply Shows.bind shows_batches
      rintro _ _ _ ⟨rfl, rfl⟩
      apply (prints_putsRaw _).bind
      have hopen : (Opened.directory value.toNat [] broken).Has value.toNat := rfl
      apply (shows_sysClose hopen).mono
      rintro _ _ _ ⟨rfl, rfl⟩
      exact ⟨by simp, rfl⟩
    · intro e he
      have hopen := k.opensDirectory e path he
      rwa [hdir] at hopen

/-! ## `cat` -/

theorem shows_copyLoop {fd : Nat} {rest : Bytes} {broken : Bool} :
    k.Shows (.file fd rest broken) (copyLoop fd 1) fun ended out s' =>
      ended = (if broken then .unreadable else .eof) ∧ out = rest ∧ s' = .file fd [] broken := by
  induction hlength : rest.length using Nat.strongRecOn generalizing rest with
  | ind length ih =>
    apply shows_loop
    by_cases hrest : rest = []
    · subst hrest
      apply Shows.bind (R := fun (r : Reply) out s' => EndsWith broken r.value ∧ out = [] ∧
        s' = .file fd [] broken)
      · apply shows_ask
        intro e he
        obtain ⟨hends, hknown⟩ := k.hasRead e fd broken he
        exact ⟨[], by rw [k.quiet _ _ rfl, List.append_nil], hends, rfl, hknown⟩
      · rintro r _ _ ⟨hends, rfl, rfl⟩
        cases broken with
        | true =>
          rw [if_pos (show r.value < 0 from hends)]
          exact shows_ret ⟨rfl, rfl, rfl⟩
        | false =>
          have hvalue : r.value = 0 := hends
          rw [if_neg (by omega), if_pos hvalue]
          exact shows_ret ⟨rfl, rfl, rfl⟩
    · apply Shows.bind (R := fun (r : Reply) out s' => ∃ n : Nat, 0 < n ∧ n ≤ rest.length ∧
        r.value = n ∧ r.bytes = rest.take n ∧ out = [] ∧ s' = .file fd (rest.drop n) broken)
      · apply shows_ask
        intro e he
        obtain ⟨n, hpos, hle, hvalue, hdata, hknown⟩ := k.reads e fd rest broken he hrest
        refine ⟨[], by rw [k.quiet _ _ rfl, List.append_nil], n, hpos, hle, hvalue, ?_, rfl, hknown⟩
        rw [Reply.bytes, hvalue, Int.toNat_natCast, hdata]
      · rintro r _ _ ⟨n, hpos, hle, hvalue, hbytes, rfl, rfl⟩
        rw [if_neg (by omega), if_neg (by omega), hbytes]
        apply Shows.bind shows_writeLoop
        rintro written _ _ ⟨hwritten, rfl, rfl⟩
        rw [if_neg (by omega)]
        apply shows_ret
        apply (ih (rest.drop n).length (by rw [List.length_drop]; omega) rfl).mono
        rintro ended _ _ ⟨rfl, rfl, rfl⟩
        exact ⟨rfl, by simp, rfl⟩

theorem prints_catFile (path : Bytes) : k.Prints .nothing (catFile path) (k.catText path) := by
  rw [catFile, catText]
  cases hfile : k.file? path with
  | none =>
    apply Shows.bind (shows_sysOpenat (R := fun value s' => value < 0 ∧ s' = .nothing) ?_)
    · rintro _ _ _ ⟨value, rfl, rfl, hvalue, rfl⟩
      rw [if_pos hvalue]
      exact prints_printError _ _
    · intro e he
      have hopen := k.opensFile e path he
      rwa [hfile] at hopen
  | some found =>
    obtain ⟨content, broken⟩ := found
    apply Shows.bind (shows_sysOpenat (R := fun value s' =>
      0 ≤ value ∧ s' = .file value.toNat content broken) ?_)
    · rintro _ _ _ ⟨value, rfl, rfl, hvalue, rfl⟩
      rw [if_neg (by omega)]
      apply Shows.bind shows_copyLoop
      rintro _ _ _ ⟨rfl, rfl, rfl⟩
      have hreport : k.Prints (.file value.toNat [] broken)
          (if (if broken then CopyEnd.unreadable else CopyEnd.eof) = .unreadable then
            printError (ascii "cat") (some path) else pure ())
          (if broken then errorText (ascii "cat") path else []) := by
        cases broken with
        | true => exact prints_printError _ _
        | false => exact prints_ret
      apply hreport.bind
      have hopen : (Opened.file value.toNat [] broken).Has value.toNat := rfl
      apply (shows_sysClose hopen).mono
      rintro _ _ _ ⟨rfl, rfl⟩
      exact ⟨by simp, rfl⟩
    · intro e he
      have hopen := k.opensFile e path he
      rwa [hfile] at hopen

theorem prints_cmdCat (argv : List Bytes) : k.Prints .nothing (cmdCat argv)
    (if argv.length < 2 then ascii "usage: cat PATH..." ++ ascii "\n"
      else argv.tail.flatMap k.catText) := by
  rw [cmdCat]
  split
  · exact prints_putLine _
  · exact prints_forEach fun path _ => prints_catFile path

/-! ## The console -/

/-- Whatever the kernel cuts a directory and the writes into, `ls` comes to its
end, and the console has every name once, in the order of the directory. -/
theorem ls_prints_directory {e : ε} (he : k.known e = .nothing) (argv : List Bytes) :
    (∃ e', Yields k.answer e (cmdLs argv) () e') ∧ ∀ e', Yields k.answer e (cmdLs argv) () e' →
      k.shown e' = k.shown e ++ k.lsText (argv.getD 1 (ascii ".")) ∧ k.known e' = .nothing := by
  obtain ⟨⟨_, e', hrun⟩, hall⟩ := (prints_cmdLs argv).served he
  refine ⟨⟨e', hrun⟩, fun e' hrun => ?_⟩
  obtain ⟨out, hshown, rfl, hknown⟩ := hall () e' hrun
  exact ⟨hshown, hknown⟩

/-- `cat` comes to its end too, and the console has the files of its words one
after another, with a line for each that cannot be opened or read to its end. -/
theorem cat_prints_files {e : ε} (he : k.known e = .nothing) {argv : List Bytes}
    (hargs : 2 ≤ argv.length) :
    (∃ e', Yields k.answer e (cmdCat argv) () e') ∧ ∀ e', Yields k.answer e (cmdCat argv) () e' →
      k.shown e' = k.shown e ++ argv.tail.flatMap k.catText ∧ k.known e' = .nothing := by
  have hcat := @prints_cmdCat ε k argv
  rw [if_neg (by omega)] at hcat
  obtain ⟨⟨_, e', hrun⟩, hall⟩ := hcat.served he
  refine ⟨⟨e', hrun⟩, fun e' hrun => ?_⟩
  obtain ⟨out, hshown, rfl, hknown⟩ := hall () e' hrun
  exact ⟨hshown, hknown⟩

end FileKernel

/-! ## A kernel that moves single bytes -/

def errno (broken : Bool) : Int := if broken then -5 else 0

def byteReply (directory? : Bytes → Option (List Batch × Bool))
    (file? : Bytes → Option (Bytes × Bool)) : Opened → Call → Reply × Opened
  | s, .write _ _ => (⟨1, [], []⟩, s)
  | _, .close _ => (⟨0, [], []⟩, .nothing)
  | .nothing, .openat path flags _ =>
    if flags = oRdonly then
      match file? path with
      | none => (⟨-2, [], []⟩, .nothing)
      | some (content, broken) => (⟨3, [], []⟩, .file 3 content broken)
    else
      match directory? path with
      | none => (⟨-2, [], []⟩, .nothing)
      | some (batches, broken) => (⟨3, [], []⟩, .directory 3 batches broken)
  | .directory fd (batch :: batches) broken, .getdents64 _ _ =>
    (⟨batch.record.length, batch.record, []⟩, .directory fd batches broken)
  | .directory fd [] broken, .getdents64 _ _ =>
    (⟨errno broken, [], []⟩, .directory fd [] broken)
  | .file fd (c :: rest) broken, .read _ _ => (⟨1, [c], []⟩, .file fd rest broken)
  | .file fd [] broken, .read _ _ => (⟨errno broken, [], []⟩, .file fd [] broken)
  | s, _ => (⟨-38, [], []⟩, s)

def firstByte : Call → Bytes
  | .write _ bytes => bytes.take 1
  | _ => []

/-- What is open, and the console. -/
def byteAnswer (directory? : Bytes → Option (List Batch × Bool))
    (file? : Bytes → Option (Bytes × Bool)) (e : Opened × Bytes) (c : Call) :
    Reply × (Opened × Bytes) :=
  let (r, s) := byteReply directory? file? e.1 c
  (r, (s, e.2 ++ firstByte c))

theorem endsWith_errno (broken : Bool) : EndsWith broken (errno broken) := by
  cases broken with
  | true => exact (by decide : (-5 : Int) < 0)
  | false => exact (rfl : (0 : Int) = 0)

def byteKernel (directory? : Bytes → Option (List Batch × Bool))
    (file? : Bytes → Option (Bytes × Bool)) : FileKernel (Opened × Bytes) where
  answer := byteAnswer directory? file?
  shown := Prod.snd
  known := Prod.fst
  directory? := directory?
  file? := file?
  write := by
    rintro ⟨s, out⟩ bytes hbytes
    exact ⟨1, by decide, List.length_pos_iff.mpr hbytes, rfl, rfl, rfl⟩
  quiet := by
    rintro ⟨s, out⟩ c hc
    cases c with
    | write => cases hc
    | _ => exact List.append_nil out
  opensDirectory := by
    rintro ⟨s, out⟩ path hs
    obtain rfl : s = .nothing := hs
    have hflags : oRdonly ||| oDirectory ≠ oRdonly := by decide
    simp only [byteAnswer, byteReply, if_neg hflags]
    cases directory? path with
    | none => exact ⟨by decide, rfl⟩
    | some found => exact ⟨(by decide : (0 : Int) ≤ 3), rfl⟩
  opensFile := by
    rintro ⟨s, out⟩ path hs
    obtain rfl : s = .nothing := hs
    simp only [byteAnswer, byteReply, if_true]
    cases file? path with
    | none => exact ⟨by decide, rfl⟩
    | some found => exact ⟨(by decide : (0 : Int) ≤ 3), rfl⟩
  lists := by
    rintro ⟨s, out⟩ fd batch batches broken hs
    obtain rfl : s = .directory fd (batch :: batches) broken := hs
    exact ⟨rfl, List.prefix_rfl, rfl⟩
  listed := by
    rintro ⟨s, out⟩ fd broken hs
    obtain rfl : s = .directory fd [] broken := hs
    exact ⟨endsWith_errno broken, rfl⟩
  reads := by
    rintro ⟨s, out⟩ fd rest broken hs hrest
    obtain rfl : s = .file fd rest broken := hs
    obtain ⟨c, rest, rfl⟩ := List.exists_cons_of_ne_nil hrest
    exact ⟨1, by decide, Nat.succ_le_succ (Nat.zero_le _), rfl, rfl, rfl⟩
  hasRead := by
    rintro ⟨s, out⟩ fd broken hs
    obtain rfl : s = .file fd [] broken := hs
    exact ⟨endsWith_errno broken, rfl⟩
  closes := by
    rintro ⟨s, out⟩ fd _
    rfl

def direntOf (type : UInt8) (name : Bytes) (plain : 0 ∉ name)
    (short : 20 + name.length < 65536) : Dirent :=
  ⟨List.replicate 16 7, type, name, [], rfl, plain, short⟩

/-- A directory in two buffers, and a file. -/
def smallRoot : FileKernel (Opened × Bytes) :=
  byteKernel
    (fun path => if path = ascii "." then
      some ([⟨[direntOf 4 (ascii "etc") (by decide) (by decide)], List.cons_ne_nil _ _⟩,
        ⟨[direntOf 8 (ascii "init") (by decide) (by decide)], List.cons_ne_nil _ _⟩], false)
      else none)
    fun path => if path = ascii "init" then some (ascii "#!/bin/sh\n", false) else none

theorem ls_prints_directory_root : ∃ e', Yields smallRoot.answer (.nothing, [])
    (cmdLs [ascii "ls"]) () e' ∧ e'.2 = ascii "etc/  init  \n" := by
  obtain ⟨⟨e', hrun⟩, hall⟩ := FileKernel.ls_prints_directory (k := smallRoot) (e := (.nothing, []))
    rfl [ascii "ls"]
  refine ⟨e', hrun, ?_⟩
  have htext : smallRoot.lsText (ascii ".") = ascii "etc/  init  \n" := by decide +kernel
  rw [← htext]
  exact (hall e' hrun).1

theorem cat_prints_files_init : ∃ e', Yields smallRoot.answer (.nothing, [])
    (cmdCat [ascii "cat", ascii "init", ascii "x"]) () e' ∧
      e'.2 = ascii "#!/bin/sh\ncat: failed: x\n" := by
  obtain ⟨⟨e', hrun⟩, hall⟩ := FileKernel.cat_prints_files (k := smallRoot) (e := (.nothing, []))
    rfl (by decide : 2 ≤ [ascii "cat", ascii "init", ascii "x"].length)
  refine ⟨e', hrun, ?_⟩
  have htext : [ascii "init", ascii "x"].flatMap smallRoot.catText =
      ascii "#!/bin/sh\ncat: failed: x\n" := by decide +kernel
  rw [← htext]
  exact (hall e' hrun).1

end LinuxBuild.Payload.Listing
