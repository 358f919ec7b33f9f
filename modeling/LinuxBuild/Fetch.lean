import LinuxBuild.Transfer

/-!
# What `cmd_fetch` leaves behind

Until the output file is opened nothing touches the file system (`Quiet`).
From then on the file is a prefix of the body (`Appended`, `copyBody_spec`),
and every way out either keeps it whole or unlinks it.
-/

namespace LinuxBuild

/-- The openings and unlinkings among the events. -/
def Event.isFile : Event → Bool
  | .opened .. => true
  | .unlinked .. => true
  | _ => false

def Kernel.fileEvents (k : Kernel) : List Event := k.log.filter Event.isFile

/-- Calls that leave the file system alone. -/
structure Quiet (k k' : Kernel) : Prop where
  answers : k'.answers = k.answers
  files : k'.files = k.files
  events : k'.fileEvents = k.fileEvents

theorem Quiet.refl (k : Kernel) : Quiet k k := ⟨rfl, rfl, rfl⟩

theorem Quiet.trans {a b c : Kernel} (h : Quiet a b) (h' : Quiet b c) : Quiet a c :=
  ⟨h'.answers.trans h.answers, h'.files.trans h.files, h'.events.trans h.events⟩

theorem Quiet.tick (k : Kernel) : Quiet k k.tick := ⟨rfl, rfl, rfl⟩

theorem fileEvents_record (k : Kernel) (e : Event) :
    (k.record e).fileEvents = k.fileEvents ++ if e.isFile then [e] else [] := by
  simp only [Kernel.fileEvents, Kernel.record, List.filter_append]
  cases h : e.isFile <;> simp [h]

theorem Quiet.record {k : Kernel} {e : Event} (h : e.isFile = false) : Quiet k (k.record e) :=
  ⟨rfl, rfl, by simp [fileEvents_record, h]⟩

theorem Quiet.putLine (text : Bytes) (k : Kernel) : Quiet k (putLine text k) := ⟨rfl, rfl, rfl⟩

theorem Quiet.printError (command target : Bytes) (k : Kernel) :
    Quiet k (printError command target k) := ⟨rfl, rfl, rfl⟩

theorem Quiet.sysClose (fd : Nat) (k : Kernel) : Quiet k (sysClose fd k) := by
  unfold LinuxBuild.sysClose
  split
  · exact (Quiet.tick k).trans (.record rfl)
  · exact Quiet.trans (b := { k.tick with fds := k.fds.set fd none }) ⟨rfl, rfl, rfl⟩ (.record rfl)

/-! ## The connection -/

/-- A call on the connected socket: its descriptor stays what it was, and what
it took from the peer is a prefix of what was coming. -/
structure OnStream (s : Nat) (taken : Bytes) (k k' : Kernel) : Prop extends Quiet k k' where
  object : ∀ fd, k'.object fd = k.object fd
  incoming : k.incoming = taken ++ k'.incoming
  console : k'.console = k.console

theorem OnStream.refl (s : Nat) (k : Kernel) : OnStream s [] k k :=
  { Quiet.refl k with object := fun _ => rfl, incoming := rfl, console := rfl }

theorem OnStream.trans {s : Nat} {xs ys : Bytes} {a b c : Kernel}
    (h : OnStream s xs a b) (h' : OnStream s ys b c) : OnStream s (xs ++ ys) a c :=
  { h.toQuiet.trans h'.toQuiet with
    object := fun fd => (h'.object fd).trans (h.object fd)
    incoming := by rw [h.incoming, h'.incoming, List.append_assoc]
    console := h'.console.trans h.console }

theorem OnStream.tick (s : Nat) (k : Kernel) : OnStream s [] k k.tick :=
  { Quiet.tick k with object := fun _ => rfl, incoming := rfl, console := rfl }

theorem sysWrite_stream {s : Nat} (bytes : Bytes) {k : Kernel} (hs : k.object s = some .stream) :
    OnStream s [] k (sysWrite s bytes k).2 := by
  unfold sysWrite
  split
  · exact .tick s k
  · rw [hs]
    exact { answers := rfl, files := rfl, events := rfl, object := fun _ => rfl, incoming := rfl,
            console := rfl }

theorem writeLoop_stream {s fuel written : Nat} {rest : Bytes} {k : Kernel}
    (hs : k.object s = some .stream) : OnStream s [] k (writeLoop fuel s rest written k).2 := by
  induction fuel generalizing rest written k with
  | zero => exact .refl s k
  | succ fuel ih =>
    simp only [writeLoop]
    split
    · exact .refl s k
    · have h := sysWrite_stream rest hs
      split
      · exact h
      · exact h.trans (ih ((h.object s).trans hs))

theorem writeEach_stream {s : Nat} {texts : List Bytes} {k : Kernel}
    (hs : k.object s = some .stream) : OnStream s [] k (writeEach s texts k).2 := by
  induction texts generalizing k with
  | nil => exact .refl s k
  | cons text texts ih =>
    simp only [writeEach]
    have h : OnStream s [] k (writeAll s text k).2 := writeLoop_stream hs
    split
    · exact h
    · exact h.trans (ih ((h.object s).trans hs))

/-- A read of a stream takes what it stores, and stores nothing only on an
error or at the end. -/
theorem sysRead_stream {s : Nat} (count : Nat) {k : Kernel} (hs : k.object s = some .stream)
    (hc : 0 < count) :
    OnStream s (sysRead s count k).2.1 k (sysRead s count k).2.2 ∧
    (sysRead s count k).2.1.length ≤ count ∧
    ((sysRead s count k).1 < 0 ∧ (sysRead s count k).2.1 = [] ∨
      (sysRead s count k).1 = (sysRead s count k).2.1.length ∧
      ((sysRead s count k).1 = 0 → k.incoming = [])) := by
  unfold sysRead
  split
  · exact ⟨.tick s k, Nat.zero_le _, .inl ⟨by assumption, rfl⟩⟩
  · rw [hs]
    have hle := transfer_le k.answer count k.incoming.length
    refine ⟨?_, ?_, .inr ⟨?_, ?_⟩⟩
    · exact { answers := rfl, files := rfl, events := rfl, object := fun _ => rfl,
              incoming := (List.take_append_drop _ _).symm, console := rfl }
    · simp only [List.length_take]
      have := transfer_le_count k.answer count k.incoming.length
      omega
    · simp only [List.length_take]; omega
    · intro h
      have hz : transfer k.answer count k.incoming.length = 0 := by simpa using h
      by_cases he : k.incoming = []
      · exact he
      · have := transfer_pos k.answer hc (List.length_pos_iff.mpr he)
        omega

/-- Rounds left over change nothing: every round but the last writes a byte. -/
theorem writeLoop_fuel {fd fuel fuel' written : Nat} {rest : Bytes} {k : Kernel}
    (h : rest.length ≤ fuel) (h' : rest.length ≤ fuel') :
    writeLoop fuel fd rest written k = writeLoop fuel' fd rest written k := by
  induction fuel generalizing fuel' rest written k with
  | zero =>
    have : rest = [] := List.length_eq_zero_iff.mp (by omega)
    subst this
    cases fuel' <;> simp [writeLoop]
  | succ fuel ih =>
    cases fuel' with
    | zero =>
      have : rest = [] := List.length_eq_zero_iff.mp (by omega)
      subst this
      simp [writeLoop]
    | succ fuel' =>
      simp only [writeLoop]
      split
      · rfl
      · split
        · rfl
        · exact ih (by rw [List.length_drop]; omega) (by rw [List.length_drop]; omega)

/-! ## The header block -/

/-- The bytes up to and including the first CRLF CRLF. -/
def IsHeaderBlock (block : Bytes) : Prop :=
  crlfCrlf <:+ block ∧ ∀ p, p <+: block → crlfCrlf <:+ p → p = block

instance (block : Bytes) : Decidable (IsHeaderBlock block) :=
  decidable_of_iff (crlfCrlf <:+ block ∧
      ∀ n ∈ List.range block.length, ¬ crlfCrlf <:+ block.take n) <| by
    constructor
    · rintro ⟨hs, hmin⟩
      refine ⟨hs, fun p hp hps => Classical.byContradiction fun hne => ?_⟩
      have hlt : p.length < block.length :=
        Nat.lt_of_le_of_ne hp.length_le fun hl => hne (hp.eq_of_length hl)
      apply hmin p.length (List.mem_range.mpr hlt)
      rwa [← List.prefix_iff_eq_take.mp hp]
    · rintro ⟨hs, hmin⟩
      refine ⟨hs, fun n hn hps => ?_⟩
      have hlt := List.mem_range.mp hn
      have := congrArg List.length (hmin _ (List.take_prefix n block) hps)
      rw [List.length_take] at this
      omega

/-- `header` with a byte more is the first of its prefixes to end in CRLF CRLF. -/
theorem headerBlock_snoc {header : Bytes} {c : UInt8}
    (before : ∀ p, p <+: header → ¬ crlfCrlf <:+ p) (now : crlfCrlf <:+ header ++ [c]) :
    IsHeaderBlock (header ++ [c]) := by
  refine ⟨now, fun p hp hs => ?_⟩
  obtain rfl | hp := List.prefix_concat_iff.mp hp
  · rfl
  · exact absurd hs (before p hp)

theorem sysRead_length (fd count : Nat) (k : Kernel) : (sysRead fd count k).2.1.length ≤ count := by
  unfold sysRead
  split
  · exact Nat.zero_le _
  · split
    · have := transfer_le_count k.answer count k.incoming.length
      simp only [List.length_take]
      omega
    · rename_i i pos _
      have := transfer_le_count k.answer count ((k.files.data i).length - pos)
      simp only [List.length_take]
      omega
    · exact Nat.zero_le _
    · exact Nat.zero_le _

theorem readHeaderFrom_spec {s : Nat} (room : Nat) (header : Bytes) {k : Kernel}
    (hs : k.object s = some .stream) (before : ∀ p, p <+: header → ¬ crlfCrlf <:+ p) :
    ∃ taken, OnStream s taken k (readHeaderFrom s room header k).2.2 ∧
      (readHeaderFrom s room header k).2.1 = header ++ taken ∧ taken.length ≤ room ∧
      ((readHeaderFrom s room header k).1 = true →
        IsHeaderBlock (header ++ taken) ∧ httpStatusOk (header ++ taken) = true) := by
  induction room generalizing header k with
  | zero => exact ⟨[], .refl s k, by simp [readHeaderFrom], by simp, by simp [readHeaderFrom]⟩
  | succ room ih =>
    obtain ⟨hread, hlen, hcount⟩ := sysRead_stream 1 (k := k) hs (Nat.one_pos)
    simp only [readHeaderFrom]
    revert hread hlen hcount
    generalize sysRead s 1 k = r
    obtain ⟨count, bytes, k'⟩ := r
    intro hread hlen hcount
    simp only at hread hlen hcount ⊢
    split
    · refine ⟨bytes, hread, ?_, by omega, by simp⟩
      have : bytes = [] := by
        obtain ⟨_, h⟩ | ⟨h, _⟩ := hcount
        · exact h
        · exact List.length_eq_zero_iff.mp (by omega)
      simp [this]
    · obtain ⟨c, rfl⟩ : ∃ c, bytes = [c] := List.length_eq_one_iff.mp (by omega)
      split
      · rename_i hsuf
        refine ⟨[c], hread, rfl, by simp, fun hok => ?_⟩
        exact ⟨headerBlock_snoc before (List.isSuffixOf_iff_suffix.mp hsuf), hok⟩
      · rename_i hsuf
        have hnot : ¬ crlfCrlf <:+ header ++ [c] := fun h =>
          hsuf (List.isSuffixOf_iff_suffix.mpr h)
        obtain ⟨taken, hstream, heq, hle, hok⟩ := ih (header ++ [c])
          ((hread.object s).trans hs) (fun p hp => by
            obtain rfl | hp := List.prefix_concat_iff.mp hp
            · exact hnot
            · exact before p hp)
        refine ⟨[c] ++ taken, hread.trans hstream, by rw [heq, List.append_assoc], by simp; omega, ?_⟩
        simpa only [List.append_assoc] using hok

theorem readResponseHeader_spec {s : Nat} {k : Kernel} (hs : k.object s = some .stream) :
    OnStream s (readResponseHeader s 1024 k).2.1 k (readResponseHeader s 1024 k).2.2 ∧
    (readResponseHeader s 1024 k).2.1.length ≤ 1023 ∧
    ((readResponseHeader s 1024 k).1 = true →
      IsHeaderBlock (readResponseHeader s 1024 k).2.1 ∧
      httpStatusOk (readResponseHeader s 1024 k).2.1 = true) := by
  obtain ⟨taken, h, heq, hle, hok⟩ := readHeaderFrom_spec 1023 [] hs
    (fun p hp => by simp [List.prefix_nil.mp hp, crlfCrlf])
  simp only [List.nil_append] at heq hok
  exact ⟨by rw [readResponseHeader, heq]; exact h, by rw [readResponseHeader, heq]; exact hle,
    by rw [readResponseHeader, heq]; exact hok⟩

/-! ## The output file -/

/-- Descriptor `o` is at the end of inode `i`, which got `bytes` more, while
`taken` was read from the peer. -/
structure Copied (o i : Nat) (taken bytes : Bytes) (k k' : Kernel) : Prop where
  answers : k'.answers = k.answers
  incoming : k.incoming = taken ++ k'.incoming
  console : k'.console = k.console
  events : k'.fileEvents = k.fileEvents
  entry : k'.files.entry = k.files.entry
  data : k'.files.data i = k.files.data i ++ bytes
  handle : k'.object o = some (.file i (k'.files.data i).length)
  others : ∀ fd, fd ≠ o → k'.object fd = k.object fd
  bounded : (k.files.data i).length ≤ maxFileSize → (k'.files.data i).length ≤ maxFileSize

theorem Copied.trans {o i : Nat} {ts us xs ys : Bytes} {a b c : Kernel}
    (h : Copied o i ts xs a b) (h' : Copied o i us ys b c) :
    Copied o i (ts ++ us) (xs ++ ys) a c where
  answers := h'.answers.trans h.answers
  incoming := by rw [h.incoming, h'.incoming, List.append_assoc]
  console := h'.console.trans h.console
  events := h'.events.trans h.events
  entry := h'.entry.trans h.entry
  data := by rw [h'.data, h.data, List.append_assoc]
  handle := h'.handle
  others fd hfd := (h'.others fd hfd).trans (h.others fd hfd)
  bounded := h'.bounded ∘ h.bounded

theorem OnStream.copied {s o i : Nat} {taken : Bytes} {k k' : Kernel} (h : OnStream s taken k k')
    (ho : k.object o = some (.file i (k.files.data i).length)) : Copied o i taken [] k k' where
  answers := h.answers
  incoming := h.incoming
  console := h.console
  events := h.events
  entry := by rw [h.files]
  data := by rw [h.files, List.append_nil]
  handle := by rw [h.object, h.files]; exact ho
  others fd _ := h.object fd
  bounded hb := by rw [h.files]; exact hb

theorem lt_of_object {k : Kernel} {fd : Nat} {o : Object} (h : k.object fd = some o) :
    fd < k.fds.length := by
  unfold Kernel.object at h
  by_cases hlt : fd < k.fds.length
  · exact hlt
  · rw [List.getElem?_eq_none (by omega)] at h
    simp at h

theorem setObject_object {k : Kernel} {fd : Nat} {o o' : Object} (h : k.object fd = some o) :
    (k.setObject fd o').object fd = some o' := by
  simp [Kernel.object, Kernel.setObject, lt_of_object h]

theorem setObject_other {k : Kernel} {fd fd' : Nat} {o : Object} (h : fd' ≠ fd) :
    (k.setObject fd o).object fd' = k.object fd' := by
  simp [Kernel.object, Kernel.setObject, Ne.symm h]

/-- One write at the end of a file: an error that writes nothing, or at least a
byte more of the file. -/
theorem sysWrite_file {o i : Nat} {bytes : Bytes} {k : Kernel} (hk : k.WritesAdvance)
    (ho : k.object o = some (.file i (k.files.data i).length)) (hb : bytes ≠ []) :
    ∃ n, Copied o i [] (bytes.take n) k (sysWrite o bytes k).2 ∧ n ≤ bytes.length ∧
      ((sysWrite o bytes k).1 < 0 ∧ n = 0 ∨ (sysWrite o bytes k).1 = n ∧ 0 < n) := by
  have hpos := List.length_pos_iff.mpr hb
  have hne : k.answer ≠ 0 := hk k.asked
  by_cases hneg : k.answer < 0
  · simp only [sysWrite, if_pos hneg]
    exact ⟨0, (OnStream.tick o k).copied ho, Nat.zero_le _, .inl ⟨hneg, rfl⟩⟩
  · simp only [sysWrite, if_neg hneg, ho]
    generalize hm : min (min k.answer.toNat bytes.length)
      (maxFileSize - (k.files.data i).length) = m
    by_cases hfull : m = 0 ∧ min k.answer.toNat bytes.length ≠ 0
    · simp only [if_pos hfull]
      exact ⟨0, (OnStream.tick o k).copied ho, Nat.zero_le _, .inl ⟨by decide, rfl⟩⟩
    · simp only [if_neg hfull]
      have hlen : (bytes.take m).length = m := by rw [List.length_take]; omega
      refine ⟨m, ?_, by omega, .inr ⟨rfl, by omega⟩⟩
      rw [Files.writeAt_end]
      exact {
        answers := rfl
        incoming := rfl
        console := rfl
        events := rfl
        entry := rfl
        data := Files.setData_data _ _ _
        handle := by
          apply (setObject_object (o := .file i (k.files.data i).length) ho).trans
          simp [Kernel.setObject, hlen]
        others := fun fd hfd => setObject_other hfd
        bounded := by simp only [Kernel.setObject, Files.setData_data, List.length_append]; omega }

theorem writeLoop_file {o i fuel written : Nat} {rest : Bytes} {k : Kernel} (hk : k.WritesAdvance)
    (ho : k.object o = some (.file i (k.files.data i).length)) (hf : rest.length ≤ fuel) :
    ∃ n, Copied o i [] (rest.take n) k (writeLoop fuel o rest written k).2 ∧
      ((writeLoop fuel o rest written k).1 < 0 ∨ n = rest.length) := by
  induction fuel generalizing rest written k with
  | zero =>
    have : rest = [] := List.length_eq_zero_iff.mp (by omega)
    subst this
    exact ⟨0, (OnStream.refl o k).copied ho, .inr rfl⟩
  | succ fuel ih =>
    by_cases hr : rest = []
    · subst hr
      refine ⟨0, ?_, .inr rfl⟩
      simp only [writeLoop, if_pos]
      exact (OnStream.refl o k).copied ho
    · obtain ⟨n, happ, hn, hcount⟩ := sysWrite_file hk ho hr
      simp only [writeLoop, if_neg hr]
      revert happ hcount
      generalize sysWrite o rest k = r
      obtain ⟨count, k'⟩ := r
      intro happ hcount
      simp only at happ hcount ⊢
      split
      · refine ⟨n, happ, .inl ?_⟩
        simp only; omega
      · have hcn : count.toNat = n := by omega
        obtain ⟨n', happ', hdone⟩ := @ih (written + n) (rest.drop n) k'
          (by intro m; rw [happ.answers]; exact hk m) happ.handle
          (by rw [List.length_drop]; omega)
        refine ⟨n + n', ?_, ?_⟩
        · rw [hcn, List.take_add]
          exact happ.trans happ'
        · rw [hcn]
          rw [List.length_drop] at hdone
          omega

theorem writeAll_file {o i : Nat} (bytes : Bytes) {k : Kernel} (hk : k.WritesAdvance)
    (ho : k.object o = some (.file i (k.files.data i).length)) :
    ∃ n, Copied o i [] (bytes.take n) k (writeAll o bytes k).2 ∧
      ((writeAll o bytes k).1 < 0 ∨ n = bytes.length) :=
  writeLoop_file hk ho (Nat.le_refl _)

/-! ## The copy loop -/

/-- The file gets bytes of the body in order; without a failure it gets them
all, and `total` counts them. -/
theorem copyBody_spec {s o i : Nat} (fuel total : Nat) {k : Kernel} (hk : k.WritesAdvance)
    (hso : s ≠ o)
    (hs : k.object s = some .stream)
    (ho : k.object o = some (.file i (k.files.data i).length)) (hf : k.incoming.length < fuel)
    (ht : total < 2 ^ 64) :
    ∃ taken bytes, Copied o i taken bytes k (copyBody fuel s o total k).2.2 ∧
      bytes <+: k.incoming ∧
      ((copyBody fuel s o total k).1 = false → bytes = k.incoming ∧
        (copyBody fuel s o total k).2.1 = (total + bytes.length) % 2 ^ 64) := by
  induction fuel generalizing total k with
  | zero => omega
  | succ fuel ih =>
    obtain ⟨hread, _, hcount⟩ := sysRead_stream 1024 hs (by decide)
    simp only [copyBody]
    revert hread hcount
    generalize sysRead s 1024 k = r
    obtain ⟨count, buffer, k₁⟩ := r
    intro hread hcount
    simp only at hread hcount ⊢
    have hcopied := hread.copied ho
    split
    · rename_i hzero
      refine ⟨buffer, [], hcopied, List.nil_prefix, fun _ => ?_⟩
      obtain ⟨hneg, _⟩ | ⟨_, hend⟩ := hcount
      · omega
      · exact ⟨(hend hzero).symm, (Nat.mod_eq_of_lt ht).symm⟩
    · split
      · exact ⟨buffer, [], hcopied, List.nil_prefix, by simp⟩
      · rename_i hnz hnn
        have hbuf : count = buffer.length := by omega
        obtain ⟨n, hwrite, hdone⟩ := writeAll_file buffer
          (by intro m; rw [hcopied.answers]; exact hk m) hcopied.handle
        revert hwrite hdone
        generalize writeAll o buffer k₁ = r
        obtain ⟨result, k₂⟩ := r
        intro hwrite hdone
        simp only at hwrite hdone ⊢
        have hboth := hcopied.trans hwrite
        simp only [List.append_nil, List.nil_append] at hboth
        split
        · refine ⟨buffer, _, hboth, ?_, by simp⟩
          rw [hread.incoming]
          exact (List.take_prefix n buffer).trans (List.prefix_append _ _)
        · have hn : n = buffer.length := by omega
          rw [hn, List.take_length] at hboth
          have hlen := congrArg List.length hboth.incoming
          rw [List.length_append] at hlen
          obtain ⟨taken, bytes, hrest, hprefix, hok⟩ := ih ((total + count.toNat) % 2 ^ 64)
            (k := k₂) (by intro m; rw [hboth.answers]; exact hk m)
            ((hboth.others s hso).trans hs) hboth.handle (by omega) (Nat.mod_lt _ (by decide))
          refine ⟨buffer ++ taken, buffer ++ bytes, hboth.trans hrest, ?_, fun hf => ?_⟩
          · rw [hboth.incoming]
            exact (List.prefix_append_right_inj buffer).mpr hprefix
          obtain ⟨hall, htotal⟩ := hok hf
          constructor
          · rw [hall, ← hboth.incoming]
          · rw [htotal, List.length_append, hbuf, Int.toNat_natCast]
            omega

/-- Rounds left over change nothing: every round but the last reads a byte. -/
theorem copyBody_fuel {s o i fuel fuel' total : Nat} {k : Kernel} (hk : k.WritesAdvance)
    (hso : s ≠ o) (hs : k.object s = some .stream)
    (ho : k.object o = some (.file i (k.files.data i).length))
    (hf : k.incoming.length < fuel) (hf' : k.incoming.length < fuel') :
    copyBody fuel s o total k = copyBody fuel' s o total k := by
  induction fuel generalizing fuel' total k with
  | zero => omega
  | succ fuel ih =>
    obtain ⟨fuel', rfl⟩ : ∃ n, fuel' = n + 1 := ⟨fuel' - 1, by omega⟩
    obtain ⟨hread, _, hcount⟩ := sysRead_stream 1024 hs (by decide)
    simp only [copyBody]
    revert hread hcount
    generalize sysRead s 1024 k = r
    obtain ⟨count, buffer, k₁⟩ := r
    intro hread hcount
    simp only at hread hcount ⊢
    split
    · rfl
    · split
      · rfl
      · have hcopied := hread.copied ho
        obtain ⟨n, hwrite, _⟩ := writeAll_file buffer
          (by intro m; rw [hcopied.answers]; exact hk m) hcopied.handle
        revert hwrite
        generalize writeAll o buffer k₁ = r
        obtain ⟨result, k₂⟩ := r
        intro hwrite
        simp only at hwrite ⊢
        split
        · rfl
        · have hboth := hcopied.trans hwrite
          have hlen := congrArg List.length hboth.incoming
          simp only [List.append_nil, List.length_append] at hlen
          exact ih (by intro m; rw [hboth.answers]; exact hk m) ((hboth.others s hso).trans hs)
            hboth.handle (by omega) (by omega)

/-! ## The ways out -/

theorem maxFileSize_lt : maxFileSize < 2 ^ 64 := by decide

def savedLine (n : Nat) (path : Bytes) : Bytes :=
  ascii "saved " ++ u64Text n ++ ascii " bytes to " ++ path ++ ascii "\n"

def errorLine (path : Bytes) : Bytes :=
  ascii "fetch" ++ ascii ": failed" ++ ascii ": " ++ path ++ ascii "\n"

/-- Nothing was opened, and what was printed does not start like `saved`. -/
structure Refused (k k' : Kernel) : Prop extends Quiet k k' where
  complains : ∃ text, k'.console = k.console ++ text ∧ text.head? ≠ some 's'.toUInt8

/-- The server sent `block`, a header block that fits `header[]`, then `body`. -/
structure Received (w : Word) (block body : Bytes) (k : Kernel) : Prop where
  stream : k.incoming = block ++ body
  header : IsHeaderBlock block
  short : block.length ≤ 1023
  status : httpStatusOk block = true
  valid : contentLength w block ≠ .invalid

/-- The file was opened as `fd` and has the whole body. -/
structure Saved (w : Word) (path : Bytes) (fd i : Nat) (block body : Bytes) (k k' : Kernel) :
    Prop extends Received w block body k where
  events : k'.fileEvents = k.fileEvents ++ [.opened path fd i]
  declared : ∀ v, contentLength w block = .length v → v = body.length
  content : k'.files.read path = some body
  bounded : body.length ≤ maxFileSize
  console : k'.console = k.console ++ savedLine body.length path

/-- The file was opened as `fd`, got a part of the body, and was unlinked. -/
structure Removed (w : Word) (path : Bytes) (fd i : Nat) (block body : Bytes) (k k' : Kernel) :
    Prop extends Received w block body k where
  events : k'.fileEvents = k.fileEvents ++ [.opened path fd i, .unlinked path]
  content : k'.files.read path = none
  part : k'.files.data i <+: body
  console : k'.console = k.console ++ errorLine path

theorem Refused.of_quiet {a b c : Kernel} (h : Quiet a b) (hc : b.console = a.console)
    (h' : Refused b c) : Refused a c :=
  { h.trans h'.toQuiet with complains := by rw [← hc]; exact h'.complains }

theorem Received.of_quiet {w : Word} {block body : Bytes} {a b : Kernel}
    (hi : b.incoming = a.incoming) (h : Received w block body b) : Received w block body a :=
  { h with stream := hi ▸ h.stream }

theorem Saved.of_quiet {w : Word} {path block body : Bytes} {fd i : Nat} {a b c : Kernel}
    (h : Quiet a b) (hi : b.incoming = a.incoming) (hc : b.console = a.console)
    (h' : Saved w path fd i block body b c) : Saved w path fd i block body a c :=
  { h'.toReceived.of_quiet hi with
    events := by rw [h'.events, h.events]
    declared := h'.declared
    content := h'.content
    bounded := h'.bounded
    console := by rw [h'.console, hc] }

theorem Removed.of_quiet {w : Word} {path block body : Bytes} {fd i : Nat} {a b c : Kernel}
    (h : Quiet a b) (hi : b.incoming = a.incoming) (hc : b.console = a.console)
    (h' : Removed w path fd i block body b c) : Removed w path fd i block body a c :=
  { h'.toReceived.of_quiet hi with
    events := by rw [h'.events, h.events]
    content := h'.content
    part := h'.part
    console := by rw [h'.console, hc] }

@[simp] theorem sysClose_console (fd : Nat) (k : Kernel) : (sysClose fd k).console = k.console := by
  unfold sysClose; split <;> rfl

@[simp] theorem sysClose_files (fd : Nat) (k : Kernel) : (sysClose fd k).files = k.files :=
  (Quiet.sysClose fd k).files

theorem printError_console (path : Bytes) (k : Kernel) :
    (printError (ascii "fetch") path k).console = k.console ++ errorLine path := by
  simp [printError, putsRaw, errorLine]

theorem savedReport_events (total : Nat) (path : Bytes) (k : Kernel) :
    (putLine path (putsRaw (ascii " bytes to ") (printU64 total (putsRaw (ascii "saved ") k)))).fileEvents
      = k.fileEvents := rfl

theorem savedReport_files (total : Nat) (path : Bytes) (k : Kernel) :
    (putLine path (putsRaw (ascii " bytes to ") (printU64 total (putsRaw (ascii "saved ") k)))).files
      = k.files := rfl

theorem savedReport_console (total : Nat) (path : Bytes) (k : Kernel) :
    (putLine path (putsRaw (ascii " bytes to ") (printU64 total (putsRaw (ascii "saved ") k)))).console
      = k.console ++ savedLine total path := by
  simp only [putLine, putsRaw, printU64, savedLine, List.append_assoc]

theorem refused_printError (target : Bytes) (k : Kernel) :
    Refused k (printError (ascii "fetch") target k) :=
  { Quiet.printError _ _ k with
    complains := ⟨errorLine target, printError_console target k, by
      rw [show (errorLine target).head? = some 'f'.toUInt8 from rfl]; decide⟩ }

theorem refused_putLine {text : Bytes} {k : Kernel} (h : text.head?.any (· ≠ 's'.toUInt8) = true) :
    Refused k (putLine text k) :=
  { Quiet.putLine text k with
    complains := ⟨text ++ ascii "\n", by simp [putLine, putsRaw], by
      cases text with
      | nil => simp at h
      | cons c text => simpa using h⟩ }

theorem Refused.close {k k' : Kernel} (fd : Nat) (h : Refused k k') : Refused k (sysClose fd k') :=
  { h.toQuiet.trans (Quiet.sysClose fd k') with
    complains := (sysClose_console fd k').symm ▸ h.complains }

theorem unlinked_events (path : Bytes) (k : Kernel) :
    (sysUnlinkat path k).fileEvents = k.fileEvents ++ [.unlinked path] :=
  fileEvents_record { k.tick with files := k.files.unlink path } (.unlinked path)

theorem unlinked_data (path : Bytes) (k : Kernel) (i : Nat) :
    (sysUnlinkat path k).files.data i = k.files.data i := rfl

/-- What `sys_openat` gives the copy loop: a fresh descriptor at the start of
an empty file. -/
theorem sysCreate_spec (path : Bytes) (k : Kernel) :
    ((sysCreate path k).1 = none ∧ Quiet k (sysCreate path k).2 ∧
      (sysCreate path k).2.console = k.console) ∨
    ∃ o i, (sysCreate path k).1 = some o ∧ k.object o = none ∧
      (sysCreate path k).2.fileEvents = k.fileEvents ++ [.opened path o i] ∧
      (sysCreate path k).2.answers = k.answers ∧
      (sysCreate path k).2.incoming = k.incoming ∧
      (sysCreate path k).2.console = k.console ∧
      (sysCreate path k).2.files.entry path = some i ∧
      (sysCreate path k).2.files.data i = [] ∧
      (sysCreate path k).2.object o = some (.file i 0) ∧
      ∀ fd, fd ≠ o → (sysCreate path k).2.object fd = k.object fd := by
  by_cases hneg : k.answer < 0
  · rw [sysCreate, if_pos hneg]
    exact .inl ⟨rfl, .tick k, rfl⟩
  · obtain ⟨hnew, hfree, hother⟩ := allocate_spec (.file (k.files.create path).1 0) k.fds
    rw [sysCreate, if_neg hneg]
    refine .inr ⟨_, (k.files.create path).1, rfl, hfree, ?_, rfl, rfl, rfl,
      Files.create_entry _ _, Files.create_data _ _, ?_, hother⟩
    · exact fileEvents_record _ _
    · simp only [Kernel.object, Kernel.record]
      rw [hnew]
      rfl

/-- From the copy loop on: the body is kept whole and has the expected length,
or the name is gone. -/
theorem fetchBody_spec (expected : Option Nat) (path : Bytes) {s o i : Nat} {k : Kernel}
    (hk : k.WritesAdvance) (hso : s ≠ o) (hs : k.object s = some .stream)
    (ho : k.object o = some (.file i 0)) (hi : k.files.entry path = some i)
    (hd : k.files.data i = []) :
    ((fetchBody expected s o path k).fileEvents = k.fileEvents ∧
      (fetchBody expected s o path k).files.read path = some k.incoming ∧
      k.incoming.length ≤ maxFileSize ∧ (∀ v, expected = some v → v = k.incoming.length) ∧
      (fetchBody expected s o path k).console = k.console ++ savedLine k.incoming.length path) ∨
    ((fetchBody expected s o path k).fileEvents = k.fileEvents ++ [.unlinked path] ∧
      (fetchBody expected s o path k).files.read path = none ∧
      (fetchBody expected s o path k).files.data i <+: k.incoming ∧
      (fetchBody expected s o path k).console = k.console ++ errorLine path) := by
  obtain ⟨taken, bytes, hcopied, hprefix, hdone⟩ := copyBody_spec
    (k.incoming.length + 1) 0 (i := i) hk hso hs (by rw [ho, hd]; rfl) (Nat.lt_succ_self _) (by decide)
  simp only [fetchBody]
  revert hcopied hdone
  generalize copyBody (k.incoming.length + 1) s o 0 k = r
  obtain ⟨failed, total, k₁⟩ := r
  intro hcopied hdone
  simp only at hcopied hdone ⊢
  have hclose : Quiet k₁ (sysClose s (sysClose o k₁)) :=
    (Quiet.sysClose o k₁).trans (Quiet.sysClose s _)
  split
  · right
    refine ⟨?_, ?_, ?_, ?_⟩
    · rw [(Quiet.printError _ _ _).events, unlinked_events, hclose.events, hcopied.events]
    · simp [printError, putsRaw, sysUnlinkat, Kernel.record, Files.read]
    · rw [(Quiet.printError _ _ _).files, unlinked_data, hclose.files, hcopied.data, hd]
      exact hprefix
    · rw [printError_console]
      simp [sysUnlinkat, Kernel.record, hcopied.console]
  · left
    rename_i hok
    simp only [Bool.or_eq_true, not_or, Bool.not_eq_true] at hok
    obtain ⟨hfailed, hexpected⟩ := hok
    obtain ⟨hall, htotal⟩ := hdone hfailed
    have hdata : k₁.files.data i = k.incoming := by rw [hcopied.data, hd, hall, List.nil_append]
    have hbound : k.incoming.length ≤ maxFileSize := by
      rw [← hdata]; exact hcopied.bounded (by simp [hd])
    have hlen : total = k.incoming.length := by
      rw [htotal, hall, Nat.zero_add]
      exact Nat.mod_eq_of_lt (Nat.lt_of_le_of_lt hbound maxFileSize_lt)
    refine ⟨?_, ?_, hbound, ?_, ?_⟩
    · rw [savedReport_events, hclose.events, hcopied.events]
    · rw [savedReport_files, hclose.files, Files.read, hcopied.entry, hi, Option.map_some, hdata]
    · intro v hv
      rw [hv, hlen] at hexpected
      have : k.incoming.length = v := by simpa using hexpected
      exact this.symm
    · rw [savedReport_console, sysClose_console, sysClose_console, hcopied.console, hlen]

/-- From the opening of the output file on. -/
theorem fetchInto_spec (expected : Option Nat) (path : Bytes) {s : Nat} {k : Kernel}
    (hk : k.WritesAdvance) (hs : k.object s = some .stream) :
    Refused k (fetchInto expected s path k) ∨
    (∃ o i, (fetchInto expected s path k).fileEvents = k.fileEvents ++ [.opened path o i] ∧
      (fetchInto expected s path k).files.read path = some k.incoming ∧
      k.incoming.length ≤ maxFileSize ∧ (∀ v, expected = some v → v = k.incoming.length) ∧
      (fetchInto expected s path k).console = k.console ++ savedLine k.incoming.length path) ∨
    ∃ o i, (fetchInto expected s path k).fileEvents =
        k.fileEvents ++ [.opened path o i, .unlinked path] ∧
      (fetchInto expected s path k).files.read path = none ∧
      (fetchInto expected s path k).files.data i <+: k.incoming ∧
      (fetchInto expected s path k).console = k.console ++ errorLine path := by
  obtain ⟨hnone, hquiet, hconsole⟩ |
    ⟨o, i, hsome, hfree, hevents, hanswers, hincoming, hconsole, hentry, hdata, hobject, hothers⟩ :=
    sysCreate_spec path k
  · simp only [fetchInto]
    revert hnone hquiet hconsole
    generalize sysCreate path k = r
    obtain ⟨fd, k₁⟩ := r
    rintro rfl hquiet hconsole
    exact .inl (.of_quiet hquiet hconsole ((refused_printError path k₁).close s))
  · have hso : s ≠ o := by
      rintro rfl
      rw [hs] at hfree
      cases hfree
    simp only [fetchInto]
    revert hsome hevents hanswers hincoming hconsole hentry hdata hobject hothers
    generalize sysCreate path k = r
    obtain ⟨fd, k₁⟩ := r
    rintro rfl hevents hanswers hincoming hconsole hentry hdata hobject hothers
    simp only at hevents hanswers hincoming hconsole hentry hdata hobject hothers ⊢
    simp only [sysFchmod, hobject]
    by_cases hmode : 0 ≤ k₁.answer
    · simp only [hmode, decide_true]
      have hbody := fetchBody_spec expected path (k := k₁.tick)
        (by intro n; rw [Kernel.tick_answers, hanswers]; exact hk n) hso
        ((hothers s hso).trans hs) hobject hentry hdata
      simp only [Kernel.tick_console, Kernel.tick_incoming, hconsole, hincoming,
        (Quiet.tick k₁).events, hevents] at hbody
      obtain hbody | ⟨he, hr, hd, hc⟩ := hbody
      · exact .inr (.inl ⟨o, i, hbody⟩)
      · exact .inr (.inr ⟨o, i, by rw [he, List.append_assoc]; rfl, hr, hd, hc⟩)
    · simp only [hmode, decide_false]
      refine .inr (.inr ⟨o, i, ?_, ?_, ?_, ?_⟩)
      · rw [(Quiet.sysClose s _).events, unlinked_events, (Quiet.sysClose o _).events,
          (Quiet.printError _ _ _).events, (Quiet.tick k₁).events, hevents, List.append_assoc]
        rfl
      · simp [sysUnlinkat, Kernel.record, Files.read]
      · rw [sysClose_files, unlinked_data, sysClose_files, (Quiet.printError _ _ _).files]
        exact hdata ▸ List.nil_prefix
      · simp [sysUnlinkat, Kernel.record, printError_console, hconsole]

theorem fetchFrom_spec {w : Word} {s : Nat} (host remote path : Bytes) {k : Kernel}
    (hk : k.WritesAdvance) (hs : k.object s = some .stream) :
    Refused k (fetchFrom w s host remote path k) ∨
    (∃ o i block body, Saved w path o i block body k (fetchFrom w s host remote path k)) ∨
    ∃ o i block body, Removed w path o i block body k (fetchFrom w s host remote path k) := by
  have hsent : OnStream s [] k (sendRequest s host remote k).2 := writeEach_stream hs
  have hfail : ∀ k' taken, OnStream s taken k k' → Refused k (sysClose s (putLine
      (ascii "fetch: HTTP request failed or non-200 response") k')) := fun k' taken h =>
    .of_quiet h.toQuiet h.console ((refused_putLine (by decide)).close s)
  simp only [fetchFrom]
  revert hsent
  generalize sendRequest s host remote k = r
  obtain ⟨sent, k₁⟩ := r
  intro hsent
  cases sent with
  | false => exact .inl (hfail k₁ _ hsent)
  | true =>
    obtain ⟨hread, hshort, hok⟩ := readResponseHeader_spec ((hsent.object s).trans hs)
    simp only
    revert hread hshort hok
    generalize readResponseHeader s 1024 k₁ = r
    obtain ⟨complete, block, k₂⟩ := r
    intro hread hshort hok
    simp only at hread hshort hok ⊢
    have hboth := hsent.trans hread
    have hinto : ∀ expected, contentLength w block ≠ .invalid →
        (∀ v, contentLength w block = .length v → expected = some v) →
        complete = true →
        Refused k (fetchInto expected s path k₂) ∨
        (∃ o i block body, Saved w path o i block body k (fetchInto expected s path k₂)) ∨
        ∃ o i block body, Removed w path o i block body k (fetchInto expected s path k₂) := by
      intro expected hvalid hexp hcomplete
      have hreceived : Received w block k₂.incoming k :=
        ⟨hboth.incoming, (hok hcomplete).1, hshort, (hok hcomplete).2, hvalid⟩
      obtain h | ⟨o, i, he, hr, hb, hx, hc⟩ | ⟨o, i, he, hr, hd, hc⟩ :=
        fetchInto_spec expected path (k := k₂)
          (by intro n; rw [hboth.answers]; exact hk n) ((hboth.object s).trans hs)
      · exact .inl (.of_quiet hboth.toQuiet hboth.console h)
      · refine .inr (.inl ⟨o, i, block, k₂.incoming, ?_⟩)
        exact { hreceived with
          events := by rw [he, hboth.events]
          declared := fun v hv => hx v (hexp v hv)
          content := hr
          bounded := hb
          console := by rw [hc, hboth.console] }
      · refine .inr (.inr ⟨o, i, block, k₂.incoming, ?_⟩)
        exact { hreceived with
          events := by rw [he, hboth.events]
          content := hr
          part := hd
          console := by rw [hc, hboth.console] }
    cases complete with
    | false => exact .inl (hfail k₂ _ hboth)
    | true =>
      simp only
      cases hlen : contentLength w block with
      | invalid =>
        exact .inl (.of_quiet hboth.toQuiet hboth.console
          ((refused_putLine (by decide)).close s))
      | absent => exact hinto none (by simp [hlen]) (by simp [hlen]) rfl
      | length value => exact hinto (some value) (by simp [hlen]) (by simp [hlen]) rfl

theorem sysSocket_spec (k : Kernel) :
    ((sysSocket k).1 = none ∧ Quiet k (sysSocket k).2 ∧ (sysSocket k).2.console = k.console) ∨
    ∃ s, (sysSocket k).1 = some s ∧ Quiet k (sysSocket k).2 ∧
      (sysSocket k).2.object s = some .stream ∧ (sysSocket k).2.incoming = k.incoming ∧
      (sysSocket k).2.console = k.console := by
  by_cases hneg : k.answer < 0
  · rw [sysSocket, if_pos hneg]
    exact .inl ⟨rfl, .tick k, rfl⟩
  · obtain ⟨hnew, _, _⟩ := allocate_spec .stream k.fds
    rw [sysSocket, if_neg hneg]
    refine .inr ⟨_, rfl, ⟨rfl, rfl, ?_⟩, ?_, rfl, rfl⟩
    · exact (fileEvents_record _ _).trans (List.append_nil _)
    · simp only [Kernel.object, Kernel.record]
      rw [hnew]
      rfl

theorem connectTcp_spec (host : Bytes) (port : Nat) (k : Kernel) :
    ((connectTcp host port k).1 = none ∧ Refused k (connectTcp host port k).2) ∨
    ∃ s, (connectTcp host port k).1 = some s ∧ Quiet k (connectTcp host port k).2 ∧
      (connectTcp host port k).2.object s = some .stream ∧
      (connectTcp host port k).2.incoming = k.incoming ∧
      (connectTcp host port k).2.console = k.console := by
  unfold connectTcp
  cases parseIpv4 host with
  | none => exact .inl ⟨rfl, refused_putLine (by decide)⟩
  | some address =>
    simp only
    have hsocket := sysSocket_spec k
    revert hsocket
    generalize sysSocket k = r
    obtain ⟨fd, k₁⟩ := r
    rintro (⟨rfl, hquiet, hconsole⟩ | ⟨s, rfl, hquiet, hobject, hincoming, hconsole⟩)
    · exact .inl ⟨rfl, .of_quiet hquiet hconsole (refused_printError _ _)⟩
    · simp only at hquiet hobject hincoming hconsole ⊢
      simp only [sysConnect, hobject]
      by_cases hneg : k₁.answer < 0
      · simp only [if_pos hneg]
        refine .inl ⟨trivial, .of_quiet (hquiet.trans ((Quiet.tick k₁).trans (.sysClose s _))) ?_
          (refused_printError _ _)⟩
        rw [sysClose_console, Kernel.tick_console, hconsole]
      · simp only [if_neg hneg]
        exact .inr ⟨s, rfl, hquiet.trans ((Quiet.tick k₁).trans (.record rfl)), hobject, hincoming,
          hconsole⟩

/-- `LOCAL_PATH`, the last argument. -/
def localPath (argv : List Bytes) : Bytes := argv.getD 4 []

theorem cmdFetch_spec (w : Word) (argv : List Bytes) {k : Kernel} (hk : k.WritesAdvance) :
    Refused k (cmdFetch w argv k) ∨
    (∃ o i block body, Saved w (localPath argv) o i block body k (cmdFetch w argv k)) ∨
    ∃ o i block body, Removed w (localPath argv) o i block body k (cmdFetch w argv k) := by
  have husage : Refused k (fetchUsage k) := refused_putLine (by decide)
  unfold cmdFetch
  split
  · rename_i name host portText remote path
    split
    · exact .inl husage
    · rename_i port _
      split
      · exact .inl husage
      · have hconnect := connectTcp_spec host port k
        revert hconnect
        generalize connectTcp host port k = r
        obtain ⟨fd, k₁⟩ := r
        rintro (⟨rfl, hrefused⟩ | ⟨s, rfl, hquiet, hobject, hincoming, hconsole⟩)
        · exact .inl hrefused
        · simp only at hquiet hobject hincoming hconsole ⊢
          obtain h | ⟨o, i, block, body, h⟩ | ⟨o, i, block, body, h⟩ := fetchFrom_spec
            host remote path (w := w) (s := s) (k := k₁)
            (by intro n; rw [hquiet.answers]; exact hk n) hobject
          · exact .inl (.of_quiet hquiet hconsole h)
          · exact .inr (.inl ⟨o, i, block, body, .of_quiet hquiet hincoming hconsole h⟩)
          · exact .inr (.inr ⟨o, i, block, body, .of_quiet hquiet hincoming hconsole h⟩)
  · exact .inl husage

end LinuxBuild
