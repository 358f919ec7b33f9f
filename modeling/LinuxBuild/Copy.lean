import LinuxBuild.Disk

/-!
# `cp` over a file system

The source is opened before the destination is truncated, so a destination that
is the same file under any name is empty before the first read.
-/

namespace LinuxBuild.Payload

open Interaction

/-! ## The copy loop -/

theorem moves_of_copyLoop {source sink : Nat} {t : Trace Call Reply} {ended : CopyEnd}
    (h : Runs (copyLoop source sink) t ended) :
    ∀ e ∈ t, (∃ n, e.1 = .read source n) ∨ ∃ bytes, e.1 = .write sink bytes :=
  (calls_copyLoop (P := fun c => (∃ n, c = .read source n) ∨ ∃ bytes, c = .write sink bytes)
    (fun n => .inl ⟨n, rfl⟩) fun bytes => .inr ⟨bytes, rfl⟩).of_runs h

/-- The loop ends with the end of the source, or at a call that failed. -/
theorem copyLoop_ends {source sink : Nat} {t : Trace Call Reply} {ended : CopyEnd}
    (h : Runs (copyLoop source sink) t ended) (hl : Legal t) :
    (ended = .eof ∧ ∃ u r, t = u ++ [(.read source 512, r)] ∧ r.value = 0 ∧ Moved source sink u) ∨
      ended ≠ .eof ∧ ∃ e ∈ t, e.2.value < 0 := by
  refine loop_induction (motive := fun _ t ended => Legal t →
    (ended = .eof ∧ ∃ u r, t = u ++ [(.read source 512, r)] ∧ r.value = 0 ∧ Moved source sink u) ∨
      ended ≠ .eof ∧ ∃ e ∈ t, e.2.value < 0) ?_ ?_ h hl
  · intro x t ended hturn hl
    obtain ⟨r, u, rfl, ⟨hr, _, hy⟩ | ⟨hr, rfl, hy⟩ | ⟨_, n, hn, hy⟩⟩ := copyTurn_cases hturn
    · cases hy
      exact .inr ⟨nofun, _, List.mem_cons_self, hr⟩
    · cases hy
      exact .inl ⟨rfl, [], r, rfl, hr, moved_nil⟩
    · split at hy
      · cases hy
        obtain ⟨v, e, rfl, _, _, hneg⟩ :=
          (sent_of_runs hn (legal_cons.mp hl).2).fails (by assumption)
        exact .inr ⟨nofun, e, by simp, hneg⟩
      · cases hy
  · intro x y t u ended hturn _ ih hl
    obtain ⟨hlt, hlu⟩ := legal_append.mp hl
    obtain ⟨r, v, rfl, ⟨_, _, hy⟩ | ⟨_, _, hy⟩ | ⟨hr, n, hn, hy⟩⟩ := copyTurn_cases hturn
    · cases hy
    · cases hy
    · split at hy
      · cases hy
      · have hmoved := moved_chunk hr hn (Int.not_lt.mp (by assumption)) hlt
        obtain ⟨heof, w, r', rfl, hr', hw⟩ | ⟨hne, e, he, hneg⟩ := ih hlu
        · exact .inl ⟨heof, _, r', (List.append_assoc _ w _).symm, hr', moved_append hmoved hw⟩
        · exact .inr ⟨hne, e, List.mem_append_right _ he, hneg⟩

/-- At the end of the source, all of it has been read. -/
theorem received_all {s : Disk} {source sink i j : Nat} {u : Trace Call Reply} {r : Reply}
    (h : Copied s (disk.after s u) source sink i j 0 u)
    (hmay : (disk.after s u).may (.read source 512) r = true) (hr : r.value = 0) :
    received source u = s.files.data i := by
  obtain ⟨_, hend⟩ := may_read hmay h.copying.reads (by omega)
  obtain hcount | hlength := hend hr
  · cases hcount
  · rw [h.kept, Nat.zero_add] at hlength
    rw [h.read, List.drop_zero, List.take_of_length_le hlength]

/-- At the end of the source the sink got all of it, unless a write was answered
with zero. -/
theorem accepted_all_iff {s : Disk} {source sink i j : Nat} {u : Trace Call Reply} {r : Reply}
    (h : Copied s (disk.after s u) source sink i j 0 u)
    (hmay : (disk.after s u).may (.read source 512) r = true) (hr : r.value = 0)
    (hmoved : Moved source sink u) : accepted sink u = s.files.data i ↔ ZeroFree u := by
  rw [← received_all h hmay hr]
  constructor
  · intro heq
    apply Decidable.byContradiction
    intro hzero
    have := hmoved.short hzero
    rw [heq] at this
    omega
  · exact hmoved.whole

/-- On an empty file the loop reads once. -/
theorem copyLoop_empty {s : Disk} {source sink i : Nat} {t : Trace Call Reply} {ended : CopyEnd}
    (h : Runs (copyLoop source sink) t ended) (hf : disk.Follows s t)
    (hopen : s.opened source = some (i, 0)) (hempty : s.files.data i = []) :
    ∃ r, t = [(.read source 512, r)] := by
  have hfirst : ∀ {r u}, disk.Follows s ((.read source 512, r) :: u) → r.value ≤ 0 := by
    intro r u hf
    have hmay : s.may (.read source 512) r = true := hf.1
    have hallows := allows_of_may hmay
    apply Decidable.byContradiction
    intro hpos
    obtain ⟨hbytes, _⟩ := may_read hmay hopen (by omega)
    simp only [Call.allows, Bool.and_eq_true, decide_eq_true_eq] at hallows
    have := congrArg List.length hbytes
    rw [hempty, List.drop_nil, List.take_nil, List.length_nil, Reply.bytes, List.length_take] at this
    omega
  obtain hlast | ⟨_, u, v, rfl, hturn, _⟩ := runs_loop.mp h
  · obtain ⟨r, u, rfl, ⟨_, rfl, _⟩ | ⟨_, rfl, _⟩ | ⟨hr, _⟩⟩ := copyTurn_cases hlast
    · exact ⟨r, rfl⟩
    · exact ⟨r, rfl⟩
    · have := hfirst hf
      omega
  · obtain ⟨r, u, rfl, ⟨_, _, hy⟩ | ⟨_, _, hy⟩ | ⟨hr, _⟩⟩ := copyTurn_cases hturn
    · cases hy
    · cases hy
    · have := hfirst hf
      omega

/-! ## `cmd_cp` -/

/-- The calls that open the two files, with the replies to them. -/
def openings (source dest : Bytes) (r₁ r₂ : Reply) : Trace Call Reply :=
  [(.openat source oRdonly 0, r₁), (.openat dest (oWronly ||| oCreat ||| oTrunc) 0o644, r₂)]

/-- A complete run of `cmd_cp` on two arguments. -/
inductive CpRun (source dest : Bytes) : Trace Call Reply → Prop where
  | noSource {r : Reply} {line : Trace Call Reply} (failed : r.value < 0)
      (said : Runs (printError (ascii "cp") (some source)) line ()) :
      CpRun source dest ((.openat source oRdonly 0, r) :: line)
  | noDest {r₁ r₂ r₃ : Reply} {line : Trace Call Reply} (opened : 0 ≤ r₁.value)
      (failed : r₂.value < 0) (said : Runs (printError (ascii "cp") (some dest)) line ()) :
      CpRun source dest (openings source dest r₁ r₂ ++ (line ++ [(.close r₁.value.toNat, r₃)]))
  | copied {r₁ r₂ r₃ r₄ : Reply} {ended : CopyEnd} {copy report : Trace Call Reply}
      (opened : 0 ≤ r₁.value) (created : 0 ≤ r₂.value)
      (copies : Runs (copyLoop r₁.value.toNat r₂.value.toNat) copy ended)
      (reports : Runs (cpReport source dest ended) report ()) :
      CpRun source dest (openings source dest r₁ r₂ ++
        (copy ++ (report ++ [(.close r₂.value.toNat, r₃), (.close r₁.value.toNat, r₄)])))

theorem runs_sysClose {fd : Nat} {t : Trace Call Reply} (h : Runs (sysClose fd) t ()) :
    ∃ r, t = [(.close fd, r)] := by
  obtain ⟨r, u, rfl, hu⟩ := runs_ask_bind.mp h
  obtain ⟨rfl, _⟩ := runs_ret.mp hu
  exact ⟨r, rfl⟩

theorem cpRun_of_runs {name source dest : Bytes} {t : Trace Call Reply}
    (h : Runs (cmdCp [name, source, dest]) t ()) : CpRun source dest t := by
  obtain ⟨u₁, v₁, opened, rfl, hopen, hv₁⟩ := runs_bind.mp h
  obtain ⟨r₁, w₁, rfl, hw₁⟩ := runs_ask_bind.mp hopen
  obtain ⟨rfl, rfl⟩ := runs_ret.mp hw₁
  by_cases hr₁ : r₁.value < 0
  · rw [Reply.descriptor, if_pos hr₁] at hv₁
    exact .noSource hr₁ hv₁
  · rw [Reply.descriptor, if_neg hr₁] at hv₁
    obtain ⟨u₂, v₂, created, rfl, hcreate, hv₂⟩ := runs_bind.mp hv₁
    obtain ⟨r₂, w₂, rfl, hw₂⟩ := runs_ask_bind.mp hcreate
    obtain ⟨rfl, rfl⟩ := runs_ret.mp hw₂
    by_cases hr₂ : r₂.value < 0
    · rw [Reply.descriptor, if_pos hr₂] at hv₂
      obtain ⟨line, x, _, rfl, hline, hclose⟩ := runs_bind.mp hv₂
      obtain ⟨r₃, rfl⟩ := runs_sysClose hclose
      exact .noDest (Int.not_lt.mp hr₁) hr₂ hline
    · rw [Reply.descriptor, if_neg hr₂] at hv₂
      obtain ⟨copy, x, ended, rfl, hcopy, hx⟩ := runs_bind.mp hv₂
      obtain ⟨report, y, _, rfl, hreport, hy⟩ := runs_bind.mp hx
      obtain ⟨z₁, z₂, _, rfl, hz₁, hz₂⟩ := runs_bind.mp hy
      obtain ⟨r₃, rfl⟩ := runs_sysClose hz₁
      obtain ⟨r₄, rfl⟩ := runs_sysClose hz₂
      exact .copied (Int.not_lt.mp hr₁) (Int.not_lt.mp hr₂) hcopy hreport

/-! ## What a run touches -/

/-- A call that reads or writes the files, not the console. -/
def isData : Call → Bool
  | .read _ _ => true
  | .write fd _ => fd ≠ 1
  | _ => false

def isOpen : Call → Bool
  | .openat _ _ _ => true
  | _ => false

def isPrint : Call → Bool
  | .write fd _ => fd = 1
  | _ => false

/-- Nothing was printed. -/
def Silent (t : Trace Call Reply) : Prop := ∀ e ∈ t, isPrint e.1 = false

instance (t : Trace Call Reply) : Decidable (Silent t) :=
  inferInstanceAs (Decidable (∀ e ∈ t, isPrint e.1 = false))

theorem says_of_runs {command : Bytes} {target : Option Bytes} {t : Trace Call Reply}
    (h : Runs (printError command target) t ()) (hcommand : command ≠ []) (hl : Legal t) :
    ¬ Silent t := by
  obtain ⟨u, v, _, rfl, hu, _⟩ := runs_bind.mp h
  obtain ⟨w, x, n, rfl, hw, hx⟩ := runs_bind.mp hu
  have hsent := sent_of_runs hw (legal_append.mp (legal_append.mp hl).1).1
  intro hsilent
  cases w with
  | nil =>
    obtain ⟨hwhole, _⟩ := hsent.whole (by simp)
    exact hcommand hwhole.symm
  | cons e w =>
    obtain ⟨bytes, he⟩ := hsent.writes e List.mem_cons_self
    have := hsilent e (by simp)
    rw [he] at this
    cases this

theorem writes_of_printError {command : Bytes} {target : Option Bytes} {t : Trace Call Reply}
    (h : Runs (printError command target) t ()) : ∀ e ∈ t, ∃ bytes, e.1 = .write 1 bytes :=
  (calls_printError (P := fun c => ∃ bytes, c = .write 1 bytes) (fun bytes => ⟨bytes, rfl⟩) _ _).of_runs h

/-- The disk behind the two openings. -/
structure Opened (files : Files) (s : Disk) (dest : Bytes) (i source sink : Nat) : Prop where
  created : s.files = (files.create dest).2
  reads : s.opened source = some (i, 0)
  writes : s.opened sink = some ((files.create dest).1, 0)
  console : s.opened 1 = none
  distinct : source ≠ sink
  notConsole : sink ≠ 1

theorem next_openat_source {files : Files} {source : Bytes} {i : Nat} {r : Reply}
    (hsource : files.entry source = some i) (hr : 0 ≤ r.value) :
    (Disk.idle files).next (.openat source oRdonly 0) r =
      (Disk.idle files).setOpened r.value.toNat (some (i, 0)) := by
  have hlookup : (Disk.idle files).lookup source oRdonly = (i, files) := by
    simp [Disk.lookup, Disk.idle, hsource, oRdonly, oTrunc]
  rw [Disk.next, if_neg (Int.not_lt.mpr hr)]
  simp only [hlookup]
  rfl

theorem opened_of_follows {files : Files} {source dest : Bytes} {i : Nat} {r₁ r₂ : Reply}
    {t : Trace Call Reply} (hsource : files.entry source = some i) (hr₁ : 0 ≤ r₁.value)
    (hf : disk.Follows (Disk.idle files) (openings source dest r₁ r₂ ++ t)) :
    ∃ s, disk.after (Disk.idle files) (openings source dest r₁ r₂ ++ t) = disk.after s t ∧
      disk.Follows s t ∧ (r₂.value < 0 → s.files = files ∧ s.opened 1 = none) ∧
      (0 ≤ r₂.value → Opened files s dest i r₁.value.toNat r₂.value.toNat) := by
  have hnext := next_openat_source (r := r₁) hsource hr₁
  have hf' : (Disk.idle files).may (.openat source oRdonly 0) r₁ = true ∧
      ((Disk.idle files).next (.openat source oRdonly 0) r₁).may
        (.openat dest (oWronly ||| oCreat ||| oTrunc) 0o644) r₂ = true ∧
      disk.Follows (((Disk.idle files).next (.openat source oRdonly 0) r₁).next
        (.openat dest (oWronly ||| oCreat ||| oTrunc) 0o644) r₂) t := hf
  have hafter : disk.after (Disk.idle files) (openings source dest r₁ r₂ ++ t) =
      disk.after (((Disk.idle files).next (.openat source oRdonly 0) r₁).next
        (.openat dest (oWronly ||| oCreat ||| oTrunc) 0o644) r₂) t := rfl
  rw [hnext] at hf' hafter
  obtain ⟨hmay₁, hmay₂, hrest⟩ := hf'
  obtain ⟨hone, _⟩ := may_openat hmay₁ hr₁
  refine ⟨_, hafter, hrest, fun hr₂ => ?_, fun hr₂ => ?_⟩
  · rw [Disk.next, if_pos hr₂]
    exact ⟨rfl, setOpened_other _ _ hone⟩
  · obtain ⟨hone', hfree⟩ := may_openat hmay₂ hr₂
    have hne : r₁.value.toNat ≠ r₂.value.toNat := by
      intro heq
      rw [← heq, setOpened_self] at hfree
      cases hfree
    have hnext₂ : ((Disk.idle files).setOpened r₁.value.toNat (some (i, 0))).next
        (.openat dest (oWronly ||| oCreat ||| oTrunc) 0o644) r₂ =
          { (Disk.idle files).setOpened r₁.value.toNat (some (i, 0)) with
            files := (files.create dest).2 }.setOpened r₂.value.toNat
              (some ((files.create dest).1, 0)) := by
      rw [Disk.next, if_neg (Int.not_lt.mpr hr₂)]
      rfl
    rw [hnext₂]
    refine ⟨rfl, ?_, setOpened_self .., ?_, hne, Ne.symm hone'⟩
    · rw [setOpened_other _ _ hne]
      exact setOpened_self ..
    · rw [setOpened_other _ _ hone']
      exact setOpened_other _ _ hone

theorem cpReport_cases {source dest : Bytes} {ended : CopyEnd} {t : Trace Call Reply}
    (h : Runs (cpReport source dest ended) t ()) :
    (ended = .eof ∧ t = []) ∨
      ended ≠ .eof ∧ ∃ path, Runs (printError (ascii "cp") (some path)) t () := by
  cases ended with
  | eof => exact .inl ⟨rfl, (runs_ret.mp h).1⟩
  | unreadable => exact .inr ⟨nofun, source, h⟩
  | unwritable => exact .inr ⟨nofun, dest, h⟩

theorem writes_of_cpReport {source dest : Bytes} {ended : CopyEnd} {t : Trace Call Reply}
    (h : Runs (cpReport source dest ended) t ()) : ∀ e ∈ t, ∃ bytes, e.1 = .write 1 bytes := by
  obtain ⟨_, rfl⟩ | ⟨_, path, hsaid⟩ := cpReport_cases h
  · simp
  · exact writes_of_printError hsaid

/-- Calls that touch no file: what is printed, and a close. -/
theorem after_files_of_idle {s : Disk} {t : Trace Call Reply} (h : s.opened 1 = none)
    (ht : ∀ e ∈ t, (∃ bytes, e.1 = .write 1 bytes) ∨ ∃ fd, e.1 = .close fd) :
    (disk.after s t).files = s.files := by
  induction t generalizing s with
  | nil => rfl
  | cons e t ih =>
    obtain ⟨c, r⟩ := e
    have hrest := fun e he => ht e (List.mem_cons_of_mem _ he)
    obtain ⟨bytes, rfl⟩ | ⟨fd, rfl⟩ := ht _ List.mem_cons_self
    · have hnext := next_write_elsewhere h bytes r
      refine (ih ?_ hrest).trans (congrArg Disk.files hnext)
      show (s.next (.write 1 bytes) r).opened 1 = none
      rw [hnext]
      exact h
    · refine (ih ?_ hrest).trans (next_close_files s fd r)
      show (s.next (.close fd) r).opened 1 = none
      rw [Disk.next]
      split
      · exact h
      · by_cases hfd : 1 = fd
        · exact if_pos hfd
        · exact (if_neg hfd).trans h

/-- What `cmd_cp` should do: the source keeps its content, and the destination
has it unless an error is printed. -/
def Copies (files : Files) (source dest : Bytes) (t : Trace Call Reply) : Prop :=
  (disk.after (Disk.idle files) t).files.read source = files.read source ∧
    (Silent t → (disk.after (Disk.idle files) t).files.read dest = files.read source)

/-- The destination is not the source, unless that is empty or cannot be opened,
and no write of data is answered with zero, unless a read or a write fails. -/
def Undisturbed (files : Files) (dest : Bytes) (i : Nat) (t : Trace Call Reply) : Prop :=
  (files.entry dest = some i → files.data i = [] ∨ ∃ e ∈ t, isOpen e.1 = true ∧ e.2.value < 0) ∧
    ((∃ e ∈ t, isData e.1 = true ∧ isWrite e.1 = true ∧ e.2.value = 0) →
      ∃ e ∈ t, isData e.1 = true ∧ e.2.value < 0)

/-- A run that cannot open one of the files. -/
theorem copies_of_failed_open {files : Files} {source dest : Bytes} {i : Nat}
    {t u : Trace Call Reply} {e : Call × Reply} (he : e ∈ t) (hopen : isOpen e.1 = true)
    (hneg : e.2.value < 0) (hfiles : (disk.after (Disk.idle files) t).files = files)
    (hsaid : ¬ Silent u) (hu : ∀ x ∈ u, x ∈ t) (hdata : ∀ x ∈ t, isData x.1 = false) :
    Copies files source dest t ↔ Undisturbed files dest i t := by
  refine iff_of_true ⟨by rw [hfiles], fun hsilent => ?_⟩ ⟨fun _ => .inr ⟨e, he, hopen, hneg⟩, ?_⟩
  · exact absurd (fun x hx => hsilent x (hu x hx)) hsaid
  · rintro ⟨x, hx, hd, _⟩
    rw [hdata x hx] at hd
    cases hd

/-- The calls of a run that opens both files: what touches data is in the copy
loop, what is printed is in the report, and the openings succeed. -/
structure Shape (t copy report : Trace Call Reply) : Prop where
  copies : ∀ e ∈ copy, e ∈ t
  reports : ∀ e ∈ report, e ∈ t
  data : ∀ e ∈ t, isData e.1 = true → e ∈ copy
  prints : ∀ e ∈ t, isPrint e.1 = true → e ∈ report
  opens : ∀ e ∈ t, isOpen e.1 = true → 0 ≤ e.2.value

theorem shape_of_run {source dest : Bytes} {a b : Nat} {r₁ r₂ r₃ r₄ : Reply}
    {copy report : Trace Call Reply} (hr₁ : 0 ≤ r₁.value) (hr₂ : 0 ≤ r₂.value) (hb : b ≠ 1)
    (hcopy : ∀ e ∈ copy, (∃ n, e.1 = .read a n) ∨ ∃ bytes, e.1 = .write b bytes)
    (hreport : ∀ e ∈ report, ∃ bytes, e.1 = .write 1 bytes) :
    Shape (openings source dest r₁ r₂ ++ (copy ++ (report ++ [(.close b, r₃), (.close a, r₄)])))
      copy report := by
  have hmem : ∀ e, e ∈ openings source dest r₁ r₂ ++
      (copy ++ (report ++ [(.close b, r₃), (.close a, r₄)])) →
      e ∈ copy ∨ e ∈ report ∨ isData e.1 = false ∧ isPrint e.1 = false ∧
        (isOpen e.1 = true → 0 ≤ e.2.value) := by
    intro e he
    simp only [openings, List.mem_append, List.mem_cons, List.not_mem_nil, or_false] at he
    obtain (rfl | rfl) | he | he | rfl | rfl := he
    · exact .inr (.inr ⟨rfl, rfl, fun _ => hr₁⟩)
    · exact .inr (.inr ⟨rfl, rfl, fun _ => hr₂⟩)
    · exact .inl he
    · exact .inr (.inl he)
    · exact .inr (.inr ⟨rfl, rfl, nofun⟩)
    · exact .inr (.inr ⟨rfl, rfl, nofun⟩)
  constructor
  · intro e he
    simp [he]
  · intro e he
    simp [he]
  · intro e he hdata
    obtain he | he | ⟨hnot, _⟩ := hmem e he
    · exact he
    · obtain ⟨bytes, hc⟩ := hreport e he
      rw [hc] at hdata
      cases hdata
    · rw [hnot] at hdata
      cases hdata
  · intro e he hprint
    obtain he | he | ⟨_, hnot, _⟩ := hmem e he
    · obtain ⟨n, hc⟩ | ⟨bytes, hc⟩ := hcopy e he
      · rw [hc] at hprint
        cases hprint
      · rw [hc] at hprint
        exact absurd (of_decide_eq_true hprint) hb
    · exact he
    · rw [hnot] at hprint
      cases hprint
  · intro e he hopen
    obtain he | he | ⟨_, _, hok⟩ := hmem e he
    · obtain ⟨n, hc⟩ | ⟨bytes, hc⟩ := hcopy e he
      · rw [hc] at hopen
        cases hopen
      · rw [hc] at hopen
        cases hopen
    · obtain ⟨bytes, hc⟩ := hreport e he
      rw [hc] at hopen
      cases hopen
    · exact hok hopen

section

variable {files : Files} {s : Disk} {source dest : Bytes} {i a b : Nat} {ended : CopyEnd}
  {t copy report : Trace Call Reply}

/-- The destination is the source: it is empty before the loop reads it. -/
theorem copies_of_same (hsource : files.entry source = some i) (hdest : files.entry dest = some i)
    (hopened : Opened files s dest i a b) (hcopy : Runs (copyLoop a b) copy ended)
    (hf : disk.Follows s copy) (hshape : Shape t copy report)
    (hfiles : (disk.after s copy).opened 1 = none →
      (disk.after (Disk.idle files) t).files = (disk.after s copy).files) :
    Copies files source dest t ↔ Undisturbed files dest i t := by
  have hinode : (files.create dest).1 = i := (create_inode files hsource).mpr hdest
  have hempty : s.files.data i = [] := by
    rw [hopened.created, ← hinode]
    exact files.create_data dest
  obtain ⟨r, rfl⟩ := copyLoop_empty hcopy hf hopened.reads hempty
  have ha : 1 ≠ a := by
    rintro rfl
    exact nomatch hopened.console.symm.trans hopened.reads
  have hnext : (s.next (.read a 512) r).files = s.files ∧
      (s.next (.read a 512) r).opened 1 = none := by
    rw [Disk.next]
    split
    · exact ⟨rfl, hopened.console⟩
    · simp only [hopened.reads]
      exact ⟨rfl, (setOpened_other _ _ ha).trans hopened.console⟩
  have hafter : (disk.after (Disk.idle files) t).files = s.files := (hfiles hnext.2).trans hnext.1
  have hread : ∀ p, files.entry p = some i → s.files.read p = some [] := by
    intro p hp
    have hentry : s.files.entry p = some i := by
      rw [hopened.created]
      exact create_entry_kept files hp
    rw [read_of_entry hentry, hempty]
  rw [Copies, hafter, hread source hsource, hread dest hdest, read_of_entry hsource]
  constructor
  · rintro ⟨hsame, _⟩
    refine ⟨fun _ => .inl (Option.some.inj hsame).symm, ?_⟩
    rintro ⟨e, he, hd, hw, _⟩
    rw [List.mem_singleton.mp (hshape.data e he hd)] at hw
    cases hw
  · rintro ⟨hsame, _⟩
    obtain hnil | ⟨e, he, ho, hneg⟩ := hsame hdest
    · rw [hnil]
      exact ⟨rfl, fun _ => rfl⟩
    · have := hshape.opens e he ho
      omega

/-- Nothing is printed exactly when the loop came to the end of the source. -/
theorem silent_iff_eof (hreport : Runs (cpReport source dest ended) report ())
    (hlegal : Legal report) (hshape : Shape t copy report) : Silent t ↔ ended = .eof := by
  obtain ⟨heof, rfl⟩ | ⟨hne, path, hsaid⟩ := cpReport_cases hreport
  · refine iff_of_true (fun e he => Bool.eq_false_iff.mpr fun hprint => ?_) heof
    cases hshape.prints e he hprint
  · refine iff_of_false (fun hsilent => ?_) hne
    exact says_of_runs hsaid (by decide) hlegal fun e he => hsilent e (hshape.reports e he)

/-- The destination is another file: it gets what the source holds. -/
theorem copies_of_other (hsource : files.entry source = some i) (hdest : files.entry dest ≠ some i)
    (hopened : Opened files s dest i a b) (hcopy : Runs (copyLoop a b) copy ended)
    (hreport : Runs (cpReport source dest ended) report ()) (hf : disk.Follows s copy)
    (hlegal : Legal report) (hshape : Shape t copy report)
    (hfiles : (disk.after s copy).opened 1 = none →
      (disk.after (Disk.idle files) t).files = (disk.after s copy).files) :
    Copies files source dest t ↔ Undisturbed files dest i t := by
  have hij : i ≠ (files.create dest).1 := fun h => hdest ((create_inode files hsource).mp h.symm)
  have hempty : s.files.data (files.create dest).1 = [] := by
    rw [hopened.created]
    exact files.create_data dest
  have hkept : s.files.data i = files.data i := by
    rw [hopened.created]
    exact create_kept files hij
  have hcopying : Copying s a b i (files.create dest).1 0 :=
    ⟨hopened.reads, by rw [hempty]; exact hopened.writes, hopened.console, Nat.zero_le _⟩
  have hcalls := moves_of_copyLoop hcopy
  have hcopied := copied_of_calls hopened.distinct hij hcopying hcalls hf
  have hafter := hfiles hcopied.copying.console
  have hdata : ∀ e ∈ copy, isData e.1 = true := by
    intro e he
    obtain ⟨n, hc⟩ | ⟨bytes, hc⟩ := hcalls e he
    · rw [hc]
      rfl
    · rw [hc]
      exact decide_eq_true hopened.notConsole
  have hsourceEntry : (disk.after s copy).files.entry source = some i := by
    rw [hcopied.entry, hopened.created]
    exact create_entry_kept files hsource
  have hdestEntry : (disk.after s copy).files.entry dest = some (files.create dest).1 := by
    rw [hcopied.entry, hopened.created]
    exact files.create_entry dest
  rw [Copies, hafter, read_of_entry hsourceEntry, read_of_entry hdestEntry, read_of_entry hsource,
    hcopied.kept, hcopied.appended, hkept, hempty, List.nil_append]
  have hsilent := silent_iff_eof hreport hlegal hshape
  obtain ⟨rfl, u, r, rfl, hr, hmoved⟩ | ⟨hne, e, he, hneg⟩ := copyLoop_ends hcopy (legal_of_follows hf)
  · obtain ⟨hfu, hlast, _⟩ := Monitor.follows_append.mp hf
    have hcopiedU := copied_of_calls hopened.distinct hij hcopying
      (fun e he => hcalls e (List.mem_append_left _ he)) hfu
    have hlossless := accepted_all_iff hcopiedU hlast hr hmoved
    rw [hkept] at hlossless
    have haccepted : accepted b (u ++ [(.read a 512, r)]) = accepted b u := by
      rw [accepted_append]
      exact List.append_nil _
    have hnonneg : ∀ e ∈ u ++ [((.read a 512, r) : Call × Reply)], 0 ≤ e.2.value := by
      simp only [List.mem_append, List.mem_singleton, or_imp, forall_and, forall_eq]
      exact ⟨hmoved.nonneg, by omega⟩
    rw [haccepted]
    constructor
    · rintro ⟨_, hall⟩
      have hfree := hlossless.mp (Option.some.inj (hall (hsilent.mpr rfl)))
      refine ⟨fun h => absurd h hdest, ?_⟩
      rintro ⟨e, he, hd, hw, hzero⟩
      obtain he | he := List.mem_append.mp (hshape.data e he hd)
      · exact absurd hzero (hfree e he hw)
      · rw [List.mem_singleton.mp he] at hw
        cases hw
    · rintro ⟨_, hwrites⟩
      refine ⟨rfl, fun _ => congrArg some (hlossless.mpr fun e he hw hzero => ?_)⟩
      have hin : e ∈ u ++ [((.read a 512, r) : Call × Reply)] := List.mem_append_left _ he
      obtain ⟨e', he', hd', hneg⟩ := hwrites ⟨e, hshape.copies e hin, hdata e hin, hw, hzero⟩
      have := hnonneg e' (hshape.data e' he' hd')
      omega
  · refine iff_of_true ⟨rfl, fun h => absurd (hsilent.mp h) hne⟩ ⟨fun h => absurd h hdest, fun _ => ?_⟩
    exact ⟨e, hshape.copies e he, hdata e he, hneg⟩

end

/-- `cmd_cp` keeps the source and copies it whole, unless it prints an error,
exactly when the destination is not the source (which may be empty, or one of
them may fail to open) and no write of data is answered with zero (unless a read
or a write of data fails). -/
theorem cp_copies_iff {files : Files} {name source dest : Bytes} {i : Nat} {t : Trace Call Reply}
    (hsource : files.entry source = some i) (h : Runs (cmdCp [name, source, dest]) t ())
    (hf : disk.Follows (Disk.idle files) t) :
    Copies files source dest t ↔ Undisturbed files dest i t := by
  have hl := legal_of_follows hf
  cases cpRun_of_runs h with
  | @noSource r line failed said =>
    have hsame : (Disk.idle files).next (.openat source oRdonly 0) r = Disk.idle files :=
      if_pos failed
    have hwrites := writes_of_printError said
    refine copies_of_failed_open (u := line) List.mem_cons_self rfl failed ?_
      (says_of_runs said (by decide) (legal_cons.mp hl).2)
      (fun x hx => List.mem_cons_of_mem _ hx) ?_
    · show (disk.after ((Disk.idle files).next (.openat source oRdonly 0) r) line).files = files
      rw [hsame]
      exact after_files_of_idle rfl fun e he => .inl (hwrites e he)
    · simp only [List.mem_cons, forall_eq_or_imp]
      refine ⟨rfl, fun e he => ?_⟩
      obtain ⟨bytes, hc⟩ := hwrites e he
      rw [hc]
      rfl
  | @noDest r₁ r₂ r₃ line opened failed said =>
    obtain ⟨s, hafter, _, hs, _⟩ := opened_of_follows hsource opened hf
    obtain ⟨hfiles, hconsole⟩ := hs failed
    have hwrites := writes_of_printError said
    have hidle : ∀ e ∈ line ++ [((.close r₁.value.toNat, r₃) : Call × Reply)],
        (∃ bytes, e.1 = .write 1 bytes) ∨ ∃ fd, e.1 = .close fd := by
      simp only [List.mem_append, List.mem_singleton, or_imp, forall_and, forall_eq]
      exact ⟨fun e he => .inl (hwrites e he), .inr ⟨_, rfl⟩⟩
    refine copies_of_failed_open (u := line)
      (e := (.openat dest (oWronly ||| oCreat ||| oTrunc) 0o644, r₂)) (by simp [openings]) rfl failed ?_
      (says_of_runs said (by decide) (legal_append.mp (legal_append.mp hl).2).1)
      (fun x hx => by simp [hx]) ?_
    · rw [hafter, after_files_of_idle hconsole hidle, hfiles]
    · simp only [openings, List.mem_append, List.mem_cons, List.not_mem_nil, or_false, or_imp,
        forall_and, forall_eq]
      refine ⟨⟨rfl, rfl⟩, fun e he => ?_, rfl⟩
      obtain ⟨bytes, hc⟩ := hwrites e he
      rw [hc]
      rfl
  | @copied r₁ r₂ r₃ r₄ ended copy report opened created copies reports =>
    obtain ⟨s, hafter, hfs, _, hs⟩ := opened_of_follows hsource opened hf
    have hopened := hs created
    obtain ⟨hfcopy, _⟩ := Monitor.follows_append.mp hfs
    have hwrites := writes_of_cpReport reports
    have hidle : ∀ e ∈ report ++ [((.close r₂.value.toNat, r₃) : Call × Reply),
        (.close r₁.value.toNat, r₄)], (∃ bytes, e.1 = .write 1 bytes) ∨ ∃ fd, e.1 = .close fd := by
      simp only [List.mem_append, List.mem_cons, List.not_mem_nil, or_false, or_imp, forall_and,
        forall_eq]
      exact ⟨fun e he => .inl (hwrites e he), .inr ⟨_, rfl⟩, .inr ⟨_, rfl⟩⟩
    have hfiles : (disk.after s copy).opened 1 = none → (disk.after (Disk.idle files)
        (openings source dest r₁ r₂ ++ (copy ++ (report ++ [(.close r₂.value.toNat, r₃),
          (.close r₁.value.toNat, r₄)])))).files = (disk.after s copy).files := by
      intro hconsole
      rw [hafter, Monitor.after_append]
      exact after_files_of_idle hconsole hidle
    have hshape : Shape (openings source dest r₁ r₂ ++ (copy ++ (report ++
        [(.close r₂.value.toNat, r₃), (.close r₁.value.toNat, r₄)]))) copy report :=
      shape_of_run opened created hopened.notConsole (moves_of_copyLoop copies) hwrites
    by_cases hdest : files.entry dest = some i
    · exact copies_of_same hsource hdest hopened copies hfcopy hshape hfiles
    · have hlegal := (legal_append.mp (legal_append.mp (legal_append.mp hl).2).2).1
      exact copies_of_other hsource hdest hopened copies reports hfcopy hlegal hshape hfiles

/-- One file, under two names. -/
def twoNames (content : Bytes) : Files where
  entry path := if path = ascii "a" ∨ path = ascii "b" then some 0 else none
  data _ := content
  unused := 1
  inUse path i h := by
    split at h
    · cases h
      exact Nat.zero_lt_one
    · cases h

/-- `cp a c`, read in two chunks, the first one written in two parts. -/
theorem cp_copies_chunks :
    ∃ t, Runs (cmdCp [ascii "cp", ascii "a", ascii "c"]) t () ∧
      Copies (twoNames (ascii "hello")) (ascii "a") (ascii "c") t := by
  have hexec : ((exec scripted 20 (cmdCp [ascii "cp", ascii "a", ascii "c"])
      [⟨3, [], []⟩, ⟨4, [], []⟩, ⟨3, ascii "hel", []⟩, ⟨2, [], []⟩, ⟨1, [], []⟩, ⟨2, ascii "lo", []⟩,
        ⟨2, [], []⟩, ⟨0, [], []⟩, ⟨0, [], []⟩, ⟨0, [], []⟩]).any fun x =>
          decide (disk.Follows (Disk.idle (twoNames (ascii "hello"))) x.2.1 ∧ ZeroFree x.2.1)) =
            true := by decide +kernel
  obtain ⟨t, _, hruns, hf, hfree⟩ := exists_runs_of_exec scripted 20 _ (P := fun t =>
    disk.Follows (Disk.idle (twoNames (ascii "hello"))) t ∧ ZeroFree t) hexec
  have hsource : (twoNames (ascii "hello")).entry (ascii "a") = some 0 := by decide
  refine ⟨t, hruns, (cp_copies_iff hsource hruns hf).mpr ⟨fun h => absurd h (by decide), ?_⟩⟩
  rintro ⟨e, he, _, hw, hzero⟩
  exact absurd hzero (hfree e he hw)

/-- `cp a b` on two names of one file empties it and prints nothing. -/
theorem cp_empties_same_file :
    ∃ t, Runs (cmdCp [ascii "cp", ascii "a", ascii "b"]) t () ∧
      disk.Follows (Disk.idle (twoNames (ascii "hello"))) t ∧ Silent t ∧
      (disk.after (Disk.idle (twoNames (ascii "hello"))) t).files.read (ascii "a") = some [] := by
  have hexec : ((exec scripted 20 (cmdCp [ascii "cp", ascii "a", ascii "b"])
      [⟨3, [], []⟩, ⟨4, [], []⟩, ⟨0, [], []⟩, ⟨0, [], []⟩, ⟨0, [], []⟩]).any fun x =>
        decide (disk.Follows (Disk.idle (twoNames (ascii "hello"))) x.2.1 ∧ Silent x.2.1 ∧
          (disk.after (Disk.idle (twoNames (ascii "hello"))) x.2.1).files.read (ascii "a") =
            some [])) = true := by decide +kernel
  obtain ⟨t, _, hruns, hrest⟩ := exists_runs_of_exec scripted 20 _ (P := fun t =>
    disk.Follows (Disk.idle (twoNames (ascii "hello"))) t ∧ Silent t ∧
      (disk.after (Disk.idle (twoNames (ascii "hello"))) t).files.read (ascii "a") = some []) hexec
  exact ⟨t, hruns, hrest⟩

end LinuxBuild.Payload
