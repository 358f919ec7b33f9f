import LinuxBuild.Writes
import LinuxBuild.Monitor

/-!
# A file system behind the calls

Which replies a file system may give, what the calls make of it, and what a
stretch of reads from one file and writes to the end of another does to the two.
-/

namespace LinuxBuild.Payload

open Interaction

/-! ## Files behind descriptors -/

/-- The regular files, and the inode and the offset of every descriptor that is
open on one. -/
structure Disk where
  files : Files
  opened : Nat → Option (Nat × Nat)

namespace Disk

/-- No descriptor is open on a file, as between two commands. -/
def idle (files : Files) : Disk where
  files := files
  opened _ := none

def setOpened (s : Disk) (fd : Nat) (file : Option (Nat × Nat)) : Disk :=
  { s with opened := fun d => if d = fd then file else s.opened d }

/-- The inode a path is opened at, emptied by `O_TRUNC`. -/
def lookup (s : Disk) (path : Bytes) (flags : Nat) : Nat × Files :=
  if flags &&& oTrunc ≠ 0 then s.files.create path
  else
    match s.files.entry path with
    | some i => (i, s.files)
    | none => (s.files.unused, s.files.link path)

/-- The replies a file system may give. Any call may fail, and a transfer may be
short; but a read returns the bytes at the offset, and none only at the end. A
descriptor that is handed out is not in use, and not one of the standard ones. -/
def may (s : Disk) (c : Call) (r : Reply) : Bool :=
  c.allows r &&
    match c with
    | .openat path flags _ =>
      r.value < 0 || (2 < r.value && s.opened r.value.toNat = none &&
        (flags &&& oCreat ≠ 0 || (s.files.entry path).isSome))
    | .read fd count =>
      match s.opened fd with
      | some (i, pos) =>
        r.value < 0 || (r.bytes = ((s.files.data i).drop pos).take r.value.toNat &&
          (r.value ≠ 0 || count = 0 || (s.files.data i).length ≤ pos))
      | none => true
    | _ => true

def next (s : Disk) (c : Call) (r : Reply) : Disk :=
  if r.value < 0 then s
  else
    match c with
    | .openat path flags _ =>
      { s with files := (s.lookup path flags).2 }.setOpened r.value.toNat
        (some ((s.lookup path flags).1, 0))
    | .read fd _ =>
      match s.opened fd with
      | some (i, pos) => s.setOpened fd (some (i, pos + r.value.toNat))
      | none => s
    | .write fd bytes =>
      match s.opened fd with
      | some (i, pos) =>
        { s with files := s.files.writeAt i pos (bytes.take r.value.toNat) }.setOpened fd
          (some (i, pos + r.value.toNat))
      | none => s
    | .close fd => s.setOpened fd none
    | .unlinkat path _ => { s with files := s.files.unlink path }
    | _ => s

end Disk

def disk : Monitor Call Reply Disk where
  may s c r := s.may c r = true
  must _ _ := True
  next := Disk.next

instance decidableFollows (s : Disk) : (t : Trace Call Reply) → Decidable (disk.Follows s t)
  | [] => .isTrue trivial
  | e :: t =>
    have := decidableFollows (s.next e.1 e.2) t
    inferInstanceAs (Decidable (s.may e.1 e.2 = true ∧ disk.Follows (s.next e.1 e.2) t))

theorem allows_of_may {s : Disk} {c : Call} {r : Reply} (h : s.may c r = true) :
    c.allows r = true := (Bool.and_eq_true_iff.mp h).1

theorem may_openat {s : Disk} {path : Bytes} {flags mode : Nat} {r : Reply}
    (h : s.may (.openat path flags mode) r = true) (hr : 0 ≤ r.value) :
    1 ≠ r.value.toNat ∧ s.opened r.value.toNat = none := by
  have := (Bool.and_eq_true_iff.mp h).2
  simp only [Bool.or_eq_true, Bool.and_eq_true, decide_eq_true_eq] at this
  obtain hneg | ⟨⟨hthree, hfree⟩, _⟩ := this
  · omega
  · exact ⟨by omega, hfree⟩

theorem may_read {s : Disk} {fd count i pos : Nat} {r : Reply}
    (h : s.may (.read fd count) r = true) (hopen : s.opened fd = some (i, pos)) (hr : 0 ≤ r.value) :
    r.bytes = ((s.files.data i).drop pos).take r.value.toNat ∧
      (r.value = 0 → count = 0 ∨ (s.files.data i).length ≤ pos) := by
  have := (Bool.and_eq_true_iff.mp h).2
  simp only [hopen, Bool.or_eq_true, Bool.and_eq_true, decide_eq_true_eq] at this
  obtain hneg | ⟨hbytes, hend⟩ := this
  · omega
  · exact ⟨hbytes, fun hzero => by simpa [hzero] using hend⟩

theorem legal_of_follows {s : Disk} {t : Trace Call Reply} (h : disk.Follows s t) : Legal t := by
  induction t generalizing s with
  | nil => simp [Legal]
  | cons e t ih => exact legal_cons.mpr ⟨allows_of_may h.1, ih h.2⟩

@[simp] theorem setOpened_files (s : Disk) (fd : Nat) (file : Option (Nat × Nat)) :
    (s.setOpened fd file).files = s.files := rfl

theorem setOpened_self (s : Disk) (fd : Nat) (file : Option (Nat × Nat)) :
    (s.setOpened fd file).opened fd = file := if_pos rfl

theorem setOpened_other (s : Disk) {fd d : Nat} (file : Option (Nat × Nat)) (h : d ≠ fd) :
    (s.setOpened fd file).opened d = s.opened d := if_neg h

/-- A write to a descriptor that is open on no file. -/
theorem next_write_elsewhere {s : Disk} {fd : Nat} (h : s.opened fd = none) (bytes : Bytes)
    (r : Reply) : s.next (.write fd bytes) r = s := by
  rw [Disk.next]
  split
  · rfl
  · simp only [h]

/-- Closing changes no file. -/
theorem next_close_files (s : Disk) (fd : Nat) (r : Reply) : (s.next (.close fd) r).files = s.files := by
  rw [Disk.next]
  split <;> rfl

/-! ## A stretch of copying -/

/-- One descriptor at an offset of a file, another at the end of another file. -/
structure Copying (s : Disk) (source sink i j pos : Nat) : Prop where
  reads : s.opened source = some (i, pos)
  writes : s.opened sink = some (j, (s.files.data j).length)
  console : s.opened 1 = none
  inside : pos ≤ (s.files.data i).length

/-- What a stretch of reads and writes makes of the two files. -/
structure Copied (s s' : Disk) (source sink i j pos : Nat) (t : Trace Call Reply) : Prop where
  copying : Copying s' source sink i j (pos + (received source t).length)
  entry : s'.files.entry = s.files.entry
  kept : s'.files.data i = s.files.data i
  appended : s'.files.data j = s.files.data j ++ accepted sink t
  read : received source t = ((s.files.data i).drop pos).take (received source t).length

theorem copied_nil {s : Disk} {source sink i j pos : Nat} (h : Copying s source sink i j pos) :
    Copied s s source sink i j pos [] :=
  ⟨h, rfl, rfl, by simp, rfl⟩

theorem copied_append {s s' s'' : Disk} {source sink i j pos : Nat} {t u : Trace Call Reply}
    (ht : Copied s s' source sink i j pos t)
    (hu : Copied s' s'' source sink i j (pos + (received source t).length) u) :
    Copied s s'' source sink i j pos (t ++ u) := by
  constructor
  · rw [received_append, List.length_append, ← Nat.add_assoc]
    exact hu.copying
  · rw [hu.entry, ht.entry]
  · rw [hu.kept, ht.kept]
  · rw [hu.appended, ht.appended, accepted_append, List.append_assoc]
  · rw [received_append, List.length_append, List.take_add, ← ht.read, List.drop_drop, ← ht.kept,
      ← hu.read]

theorem copied_read {s : Disk} {source sink i j pos count : Nat} {r : Reply} (hne : source ≠ sink)
    (h : Copying s source sink i j pos) (hmay : s.may (.read source count) r = true) :
    Copied s (s.next (.read source count) r) source sink i j pos [(.read source count, r)] := by
  have hrec : received source [(.read source count, r)] = r.bytes := by simp [received]
  by_cases hneg : r.value < 0
  · have hnone : r.bytes = [] := by
      rw [Reply.bytes, Int.toNat_of_nonpos (by omega), List.take_zero]
    have hnext : s.next (.read source count) r = s := if_pos hneg
    rw [hnext]
    refine ⟨?_, rfl, rfl, (List.append_nil _).symm, ?_⟩
    · rw [hrec, hnone]
      exact h
    · rw [hrec, hnone]
      rfl
  · have hallows := allows_of_may hmay
    obtain ⟨hbytes, _⟩ := may_read hmay h.reads (by omega)
    simp only [Call.allows, Bool.and_eq_true, decide_eq_true_eq] at hallows
    have hlength : r.bytes.length = r.value.toNat := by
      rw [Reply.bytes, List.length_take]
      omega
    have hinside : r.value.toNat ≤ (s.files.data i).length - pos := by
      have := congrArg List.length hbytes
      rw [hlength, List.length_take, List.length_drop] at this
      omega
    have hnext : s.next (.read source count) r =
        s.setOpened source (some (i, pos + r.value.toNat)) := by
      rw [Disk.next, if_neg hneg]
      simp only [h.reads]
    have hconsole : 1 ≠ source := by
      rintro rfl
      cases h.console.symm.trans h.reads
    rw [hnext]
    refine ⟨⟨?_, ?_, ?_, ?_⟩, rfl, rfl, (List.append_nil _).symm, ?_⟩
    · rw [hrec, hlength]
      exact setOpened_self ..
    · rw [setOpened_other _ _ (Ne.symm hne)]
      exact h.writes
    · rw [setOpened_other _ _ hconsole]
      exact h.console
    · have := h.inside
      rw [hrec, hlength, setOpened_files]
      omega
    · rw [hrec, hlength]
      exact hbytes

theorem copied_write {s : Disk} {source sink i j pos : Nat} {bytes : Bytes} {r : Reply}
    (hne : source ≠ sink) (hij : i ≠ j) (h : Copying s source sink i j pos)
    (hmay : s.may (.write sink bytes) r = true) :
    Copied s (s.next (.write sink bytes) r) source sink i j pos [(.write sink bytes, r)] := by
  have hacc : accepted sink [(.write sink bytes, r)] = bytes.take r.value.toNat := by
    rw [accepted_write, accepted_nil, List.append_nil]
  by_cases hneg : r.value < 0
  · have hnext : s.next (.write sink bytes) r = s := if_pos hneg
    rw [hnext]
    refine ⟨h, rfl, rfl, ?_, rfl⟩
    rw [hacc, Int.toNat_of_nonpos (by omega), List.take_zero, List.append_nil]
  · have hallows := allows_of_may hmay
    simp only [Call.allows, decide_eq_true_eq] at hallows
    have hnext : s.next (.write sink bytes) r =
        { s with files := s.files.setData j (s.files.data j ++ bytes.take r.value.toNat) }.setOpened
          sink (some (j, (s.files.data j).length + r.value.toNat)) := by
      rw [Disk.next, if_neg hneg]
      simp only [h.writes, Files.writeAt_end]
    have hconsole : 1 ≠ sink := by
      rintro rfl
      cases h.console.symm.trans h.writes
    have hkept : (s.files.setData j (s.files.data j ++ bytes.take r.value.toNat)).data i =
        s.files.data i := if_neg hij
    rw [hnext]
    refine ⟨⟨?_, ?_, ?_, ?_⟩, rfl, hkept, ?_, rfl⟩
    · rw [setOpened_other _ _ hne]
      exact h.reads
    · rw [setOpened_self, setOpened_files, Files.setData_data, List.length_append,
        List.length_take_of_le (by omega)]
    · rw [setOpened_other _ _ hconsole]
      exact h.console
    · rw [setOpened_files, hkept]
      exact h.inside
    · rw [setOpened_files, Files.setData_data, hacc]

/-- Reads of the source and writes of the sink, in any order and of any size. -/
theorem copied_of_calls {s : Disk} {source sink i j pos : Nat} {t : Trace Call Reply}
    (hne : source ≠ sink) (hij : i ≠ j) (h : Copying s source sink i j pos)
    (hcalls : ∀ e ∈ t, (∃ n, e.1 = .read source n) ∨ ∃ bytes, e.1 = .write sink bytes)
    (hf : disk.Follows s t) : Copied s (disk.after s t) source sink i j pos t := by
  induction t generalizing s pos with
  | nil => exact copied_nil h
  | cons e t ih =>
    obtain ⟨c, r⟩ := e
    obtain ⟨hmay, hrest⟩ := hf
    have hstep : Copied s (s.next c r) source sink i j pos [(c, r)] := by
      obtain ⟨n, rfl⟩ | ⟨bytes, rfl⟩ := hcalls _ List.mem_cons_self
      · exact copied_read hne h hmay
      · exact copied_write hne hij h hmay
    exact copied_append hstep
      (ih hstep.copying (fun e he => hcalls e (List.mem_cons_of_mem _ he)) hrest)

/-! ## Names -/

theorem create_kept (fs : Files) {path : Bytes} {k : Nat} (h : k ≠ (fs.create path).1) :
    (fs.create path).2.data k = fs.data k := by
  unfold Files.create at h ⊢
  split
  · rename_i i hentry
    rw [hentry] at h
    exact if_neg h
  · rename_i hentry
    rw [hentry] at h
    exact if_neg h

theorem create_entry_kept (fs : Files) {path p : Bytes} {i : Nat} (h : fs.entry p = some i) :
    (fs.create path).2.entry p = some i := by
  unfold Files.create
  split
  · exact h
  · rename_i hentry
    have hne : p ≠ path := by
      rintro rfl
      rw [hentry] at h
      cases h
    exact (if_neg hne).trans h

/-- A path is opened at the inode of another exactly if it names it. -/
theorem create_inode (fs : Files) {path p : Bytes} {i : Nat} (h : fs.entry p = some i) :
    (fs.create path).1 = i ↔ fs.entry path = some i := by
  unfold Files.create
  split
  · rename_i j hentry
    rw [hentry]
    exact Option.some.injEq j i ▸ Iff.rfl
  · rename_i hentry
    rw [hentry]
    refine iff_of_false (fun heq => ?_) nofun
    have := fs.inUse p i h
    simp only at heq
    omega

theorem read_of_entry {fs : Files} {path : Bytes} {i : Nat} (h : fs.entry path = some i) :
    fs.read path = some (fs.data i) := by
  rw [Files.read, h, Option.map_some]

end LinuxBuild.Payload
