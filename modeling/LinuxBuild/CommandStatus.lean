import LinuxBuild.Chunks
import LinuxBuild.DistroRuntime

/-!
# The status of a guest command

`command` looks for the line with the marker and the status whenever a read
comes back, so what it finds may be cut within that line. A number that is cut
still tells whether it is zero.
-/

namespace LinuxBuild.DistroRuntime

variable {decimal : Char → Bool}

def markerOf (hex : Text) : Text := text "RAPT_" ++ hex

/-- `guest.send`. -/
def sent (hex script : Text) : Text :=
  text "( set -eu; " ++ script ++ text " ); rc=$?; printf '\\n%s=%s\\n' " ++ markerOf hex ++
    text " \"$rc\"\n"

/-- A line that `pattern` matches. -/
def statusLine (hex digits : Text) : Text := markerOf hex ++ '=' :: digits

/-- What the guest prints after it was sent a command, as `output()` shows it: the line with
the status, and nowhere else the marker with `=` behind it. -/
def Answered (hex : Text) (rc : Nat) (output : Text) : Prop :=
  ∃ front back,
    output = front ++ '\n' :: (statusLine hex (Nat.toDigits 10 rc) ++ '\n' :: back) ∧
      ¬ markerOf hex ++ ['='] <:+: front ∧ ¬ markerOf hex ++ ['='] <:+: back

/-! ## Numbers that are cut -/

theorem head_toDigits {n : Nat} (h : n ≠ 0) : (Nat.toDigits 10 n).head? ≠ some '0' := by
  induction n using Nat.strongRecOn with
  | ind n ih =>
    by_cases hn : n < 10
    · rw [Nat.toDigits_of_lt_base hn]
      have hdigit : ∀ d < 10, d ≠ 0 → [d.digitChar].head? ≠ some '0' := by decide
      exact hdigit n hn h
    · have hdiv : n / 10 ≠ 0 := by omega
      rw [Nat.toDigits_of_base_le (by decide) (by omega),
        List.head?_append_of_ne_nil _ Nat.toDigits_ne_nil]
      exact ih (n / 10) (by omega) hdiv

/-- Some first digits of a number are `0` exactly if the number is. -/
theorem cut_digits {rc : Nat} {digits : Text} (h : digits <+: Nat.toDigits 10 rc)
    (hne : digits ≠ []) : digits = ['0'] ↔ rc = 0 := by
  by_cases hrc : rc = 0
  · subst hrc
    rw [Nat.toDigits_zero] at h
    rcases List.prefix_cons_iff.mp h with rfl | ⟨rest, rfl, hrest⟩
    · exact absurd rfl hne
    · rw [List.prefix_nil.mp hrest]
      exact ⟨fun _ => rfl, fun _ => rfl⟩
  · constructor
    · rintro rfl
      obtain ⟨rest, hrest⟩ := h
      have hhead := head_toDigits hrc
      rw [← hrest] at hhead
      exact absurd rfl hhead
    · exact fun h0 => absurd h0 hrc

/-! ## Texts that are cut -/

theorem prefix_cut {u front back : Text} {c : Char} (h : u <+: front ++ c :: back) :
    u <+: front ∨ ∃ w, u = front ++ c :: w ∧ w <+: back := by
  rcases List.prefix_or_prefix_of_prefix h (List.prefix_append front (c :: back)) with hu | hu
  · exact .inl hu
  · obtain ⟨v, rfl⟩ := hu
    rw [List.prefix_append_right_inj] at h
    rcases List.prefix_cons_iff.mp h with rfl | ⟨w, rfl, hw⟩
    · exact .inl (by simp)
    · exact .inr ⟨w, rfl, hw⟩

theorem infix_of_mem_splitOn {line out : Text} (h : line ∈ out.splitOn '\n') : line <:+: out := by
  induction out using Bytes.split_induction '\n' with
  | last out hout =>
    rw [List.splitOn_eq_singleton hout, List.mem_singleton] at h
    exact h ▸ List.infix_rfl
  | piece first rest hfirst ih =>
    rw [List.splitOn_append_cons_self_of_not_mem hfirst] at h
    rcases List.mem_cons.mp h with rfl | h
    · exact (List.prefix_append _ _).isInfix
    · exact (ih h).trans ((List.suffix_cons _ _).trans (List.suffix_append _ _)).isInfix

theorem statusLine_eq (hex digits : Text) :
    statusLine hex digits = (markerOf hex ++ ['=']) ++ digits := by
  rw [statusLine, List.append_assoc]
  rfl

theorem drop_statusLine (hex digits : Text) :
    (statusLine hex digits).drop ((markerOf hex).length + 1) = digits := by
  rw [statusLine_eq, List.drop_left']
  rw [List.length_append, List.length_singleton]

theorem statusOf_some {hex out digits : Text}
    (h : statusOf decimal (markerOf hex) out = some digits) :
    statusLine hex digits ∈ out.splitOn '\n' ∧ digits ≠ [] ∧ ∀ c ∈ digits, decimal c = true := by
  obtain ⟨line, hline, hfound⟩ := List.exists_of_findSome?_eq_some h
  simp only [Option.ite_none_right_eq_some, Bool.and_eq_true, bne_iff_ne,
    Option.some.injEq] at hfound
  obtain ⟨⟨⟨hstart, hne⟩, hall⟩, hdigits⟩ := hfound
  obtain ⟨rest, rfl⟩ := Python.startswith_iff.mp hstart
  rw [← statusLine_eq] at hline hne hall hdigits
  rw [drop_statusLine] at hne hall hdigits
  subst hdigits
  exact ⟨hline, hne, List.all_eq_true.mp hall⟩

theorem statusOf_isSome {hex out digits : Text} (h : statusLine hex digits ∈ out.splitOn '\n')
    (hne : digits ≠ []) (hall : ∀ c ∈ digits, decimal c = true) :
    (statusOf decimal (markerOf hex) out).isSome = true := by
  rw [statusOf, List.findSome?_isSome_iff]
  refine ⟨_, h, ?_⟩
  have hstart : Python.startswith (statusLine hex digits) (markerOf hex ++ ['=']) = true :=
    Python.startswith_iff.mpr ⟨digits, statusLine_eq hex digits⟩
  simp only [drop_statusLine, hstart, List.all_eq_true.mpr hall]
  simp [hne]

theorem infix_statusLine (hex digits : Text) :
    markerOf hex ++ ['='] <:+: statusLine hex digits := by
  rw [statusLine_eq]
  exact (List.prefix_append _ _).isInfix

theorem newline_not_mem_statusLine {hex : Text} (hhex : '\n' ∉ hex) (rc : Nat) :
    '\n' ∉ statusLine hex (Nat.toDigits 10 rc) := by
  have hdigits : '\n' ∉ Nat.toDigits 10 rc := by
    intro hc
    exact absurd (Nat.isDigit_of_mem_toDigits (by decide) (by decide) hc) (by decide)
  have hmarker : '\n' ∉ text "RAPT_" := by decide
  simp [statusLine, markerOf, hhex, hdigits, hmarker]

theorem prefix_of_statusLine {hex digits rest : Text}
    (h : statusLine hex digits <+: statusLine hex rest) : digits <+: rest := by
  rw [statusLine, statusLine, List.prefix_append_right_inj, List.cons_prefix_cons] at h
  exact h.2

/-- Any start of the output has, of all the lines with the marker, at most a start of the last. -/
theorem cut_status {hex out u digits : Text} {rc : Nat} (hhex : '\n' ∉ hex)
    (hout : Answered hex rc out) (hu : u <+: out) (h : statusLine hex digits ∈ u.splitOn '\n') :
    digits <+: Nat.toDigits 10 rc := by
  obtain ⟨front, back, rfl, hfront, hback⟩ := hout
  have hin := (infix_statusLine hex digits).trans (infix_of_mem_splitOn h)
  have hline := newline_not_mem_statusLine hhex rc
  rcases prefix_cut hu with hu | ⟨w, rfl, hw⟩
  · exact absurd (hin.trans hu.isInfix) hfront
  rw [List.splitOn_append_cons_self, List.mem_append] at h
  rcases h with h | h
  · exact absurd ((infix_statusLine hex digits).trans (infix_of_mem_splitOn h)) hfront
  rcases prefix_cut hw with hw | ⟨v, rfl, hv⟩
  · -- the cut is in the line, or at its end
    have hnot : '\n' ∉ w := fun hc => hline (hw.subset hc)
    rw [List.splitOn_eq_singleton hnot, List.mem_singleton] at h
    exact prefix_of_statusLine (h ▸ hw)
  · rw [List.splitOn_append_cons_self_of_not_mem hline, List.mem_cons] at h
    rcases h with h | h
    · exact prefix_of_statusLine ⟨[], by rw [List.append_nil, h]⟩
    · have hlate := (infix_statusLine hex digits).trans (infix_of_mem_splitOn h)
      exact absurd (hlate.trans hv.isInfix) hback

/-- A line with a status does not end with the mark of an unfinished character. -/
theorem cut_replacement {hex u digits : Text} (hreplacement : decimal Utf8.replacement = false)
    (hne : digits ≠ []) (hall : ∀ c ∈ digits, decimal c = true)
    (h : statusLine hex digits ∈ (u ++ [Utf8.replacement]).splitOn '\n') :
    statusLine hex digits ∈ u.splitOn '\n' := by
  obtain ⟨pieces, last, hu⟩ := Bytes.splitOn_concat '\n' u
  have hlast : '\n' ∉ last ++ [Utf8.replacement] := by
    have hnot : '\n' ∉ last := Bytes.splitOn_not_mem (b := u) (by simp [hu])
    have hmark : '\n' ∉ [Utf8.replacement] := by decide
    simpa [hnot] using hmark
  rw [Bytes.splitOn_append hu, List.splitOn_eq_singleton hlast, List.mem_append,
    List.mem_singleton] at h
  rcases h with h | h
  · rw [hu]
    exact List.mem_append_left _ h
  · obtain ⟨front, d, rfl⟩ := List.eq_nil_or_concat' digits |>.resolve_left hne
    have hend : statusLine hex (front ++ [d]) = statusLine hex front ++ [d] := by
      simp [statusLine]
    rw [hend] at h
    have hd := List.append_inj_right' h rfl
    have hdecimal := hall d (by simp)
    rw [List.singleton_inj.mp hd, hreplacement] at hdecimal
    cases hdecimal

/-! ## The window -/

/-- `output()`, of the bytes printed since the command was sent. -/
def window (printed : Bytes) : Text := Console.dropReturns (Utf8.decode printed)

theorem outputFrom_eq (g : Guest) (read : Bytes) (next : Guest) (h : next.raw = g.raw ++ read) :
    outputFrom next g.raw.length = window read := by
  rw [outputFrom, h, List.drop_left, window]

/-- Some first bytes show a start of the whole text, and may leave a character unfinished. -/
theorem window_cut {read printed : Bytes} (h : read <+: printed) :
    ∃ u, u <+: window printed ∧
      (window read = u ∨ window read = u ++ [Utf8.replacement]) := by
  obtain ⟨rest, rfl⟩ := h
  have hread := Utf8.decodeFrom_append none read []
  rw [List.append_nil] at hread
  refine ⟨Console.dropReturns (Utf8.settled none read), ?_, ?_⟩
  · rw [window, Utf8.decode, Utf8.decodeFrom_append]
    simp only [Console.dropReturns, List.filter_append]
    exact List.prefix_append _ _
  · rw [window, Utf8.decode, hread, Utf8.decodeFrom, Utf8.flush]
    split
    · right
      simp only [Console.dropReturns, List.filter_append]
      rfl
    · left
      simp only [List.append_nil]

/-- Whatever was read, a status that is found is a start of the one that was printed. -/
theorem status_of_read {hex digits : Text} {rc : Nat} {read printed : Bytes}
    (hreplacement : decimal Utf8.replacement = false) (hhex : '\n' ∉ hex)
    (hout : Answered hex rc (window printed)) (hread : read <+: printed)
    (h : statusOf decimal (markerOf hex) (window read) = some digits) :
    digits = ['0'] ↔ rc = 0 := by
  obtain ⟨hline, hne, hall⟩ := statusOf_some h
  obtain ⟨u, hu, hwindow⟩ := window_cut hread
  apply cut_digits _ hne
  rcases hwindow with hwindow | hwindow
  · rw [hwindow] at hline
    exact cut_status hhex hout hu hline
  · rw [hwindow] at hline
    exact cut_status hhex hout hu (cut_replacement hreplacement hne hall hline)

theorem status_of_all {hex : Text} {rc : Nat} {printed : Bytes}
    (hascii : ∀ c, c.isDigit = true → decimal c = true)
    (hhex : '\n' ∉ hex) (hout : Answered hex rc (window printed)) :
    (statusOf decimal (markerOf hex) (window printed)).isSome = true := by
  obtain ⟨front, back, heq, -, -⟩ := hout
  have hline : statusLine hex (Nat.toDigits 10 rc) ∈ (window printed).splitOn '\n' := by
    rw [heq, List.splitOn_append_cons_self,
      List.splitOn_append_cons_self_of_not_mem (newline_not_mem_statusLine hhex rc)]
    simp
  apply statusOf_isSome hline Nat.toDigits_ne_nil
  intro c hc
  exact hascii c (Nat.isDigit_of_mem_toDigits (by decide) (by decide) hc)

/-! ## The echo -/

/-- A digit of `uuid.uuid4().hex`. -/
def isHexDigit (c : Char) : Bool := c.isDigit || ('a' ≤ c && c ≤ 'f')

/-- No piece of the marker goes over one of these. -/
theorem not_mem_marker {hex : Text} (hhex : ∀ c ∈ hex, isHexDigit c = true) {c : Char}
    (hc : c ∈ ['(', ' ', '\n']) : c ∉ markerOf hex ++ ['='] := by
  intro hmem
  have hseparators : ['(', ' ', '\n'].all (fun d => !isHexDigit d &&
      !(text "RAPT_=").contains d) = true := by
    decide
  have hnot := List.all_eq_true.mp hseparators c hc
  simp only [Bool.and_eq_true, Bool.not_eq_true', List.contains_eq_mem,
    decide_eq_false_iff_not] at hnot
  rw [markerOf, List.append_assoc, List.mem_append, List.mem_append] at hmem
  rcases hmem with hmem | hmem | hmem
  · exact hnot.2 (List.mem_append_left ['='] hmem)
  · rw [hhex c hmem] at hnot
    cases hnot.1
  · exact hnot.2 (List.mem_append_right (text "RAPT_") hmem)

theorem not_infix_of_head {marker piece : Text} {c : Char} (hc : c ∉ piece) :
    ¬ c :: marker <:+: piece := by
  intro h
  exact hc (h.subset List.mem_cons_self)

/-- The echo of the line that was sent has the marker before a blank. -/
theorem answered_of_sent {hex script before output back : Text} (rc : Nat)
    (hhex : ∀ c ∈ hex, isHexDigit c = true) (hscript : ¬ markerOf hex <:+: script)
    (hbefore : ¬ markerOf hex <:+: before) (houtput : ¬ markerOf hex <:+: output)
    (hback : ¬ markerOf hex <:+: back) :
    Answered hex rc (before ++ (sent hex script ++ output) ++
      '\n' :: (statusLine hex (Nat.toDigits 10 rc) ++ '\n' :: back)) := by
  have hmarker : ∀ {t : Text}, markerOf hex ++ ['='] <:+: t → markerOf hex <:+: t :=
    fun h => (List.prefix_append _ _).isInfix.trans h
  have hcut {front rest : Text} (c : Char) (hc : c ∈ ['(', ' ', '\n'])
      (h : markerOf hex ++ ['='] <:+: front ++ c :: rest) :
      markerOf hex ++ ['='] <:+: front ∨ markerOf hex ++ ['='] <:+: rest :=
    Console.infix_of_infix_append_cons h (not_mem_marker hhex hc)
  refine ⟨_, back, rfl, ?_, fun h => hback (hmarker h)⟩
  intro h
  have hsent : before ++ (sent hex script ++ output) =
      before ++ '(' :: (text " set -eu;" ++ ' ' :: (script ++ ' ' ::
        (text "); rc=$?; printf '\\n%s=%s\\n'" ++ ' ' :: (markerOf hex ++ ' ' ::
          (text "\"$rc\"" ++ '\n' :: output))))) := by
    simp [sent, text]
  rw [hsent] at h
  rcases hcut '(' (by decide) h with h | h
  · exact hbefore (hmarker h)
  rcases hcut ' ' (by decide) h with h | h
  · exact not_infix_of_head (by decide) h
  rcases hcut ' ' (by decide) h with h | h
  · exact hscript (hmarker h)
  rcases hcut ' ' (by decide) h with h | h
  · exact not_infix_of_head (by decide) h
  rcases hcut ' ' (by decide) h with h | h
  · have hlength := h.length_le
    rw [List.length_append, List.length_singleton] at hlength
    omega
  rcases hcut '\n' (by decide) h with h | h
  · exact not_infix_of_head (by decide) h
  · exact houtput (hmarker h)

/-! ## Waiting for the status -/

/-- A wait that returns has found what it waited for in what it read. -/
theorem wait_ok {ready : Guest → Bool} {g next : Guest} {ticks rest : List Tick}
    (h : Guest.wait ready g ticks = .ok (next, rest)) :
    ready next = true ∧
      ∃ read, read <+: ticks.dropLast.flatMap Tick.data ∧ next.raw = g.raw ++ read := by
  induction ticks generalizing g with
  | nil => cases h
  | cons t ticks ih =>
    simp only [Guest.wait] at h
    split at h
    · cases h
    split at h
    next hready =>
      cases h
      exact ⟨hready, [], List.nil_prefix, (List.append_nil _).symm⟩
    next =>
      split at h
      next g' hg' =>
        obtain ⟨hready, read, hread, hraw⟩ := ih h
        have happends := (Guest.read_appends g t).1
        rw [hg'] at happends
        refine ⟨hready, t.data ++ read, ?_, ?_⟩
        · -- the turn that returns reads nothing
          cases ticks with
          | nil => cases h
          | cons u ticks =>
            rw [List.dropLast_cons_cons, List.flatMap_cons]
            exact (List.prefix_append_right_inj _).mpr hread
        · rw [hraw, happends, List.append_assoc]
      next => cases h

theorem read_not_command (g : Guest) (t : Tick) (output : Text) :
    (g.read t).2 ≠ some (.command output) := by
  unfold Guest.read
  cases t.chunk with
  | none => cases t.exited <;> simp
  | some data =>
    simp only
    split
    · simp
    · split
      · simp
      · cases t.exited <;> simp

theorem wait_not_command {ready : Guest → Bool} {g : Guest} {ticks : List Tick} {output : Text} :
    Guest.wait ready g ticks ≠ .error (.command output) := by
  induction ticks generalizing g with
  | nil =>
    intro h
    cases h
  | cons t ticks ih =>
    intro h
    simp only [Guest.wait] at h
    split at h
    · cases h
    split at h
    · cases h
    split at h
    next => exact ih h
    next failure hread =>
      cases h
      exact read_not_command g t output (congrArg Prod.snd hread)

/-- While nothing goes wrong a wait returns, at the latest when all is read. -/
theorem wait_returns {ready : Guest → Bool} {g : Guest} {reads : List Tick} {last : Tick}
    (hg : Guest.Follows g) (hruns : ∀ t ∈ reads ++ [last], t.late = false ∧ t.exited = none)
    (hcalm : ¬ Guest.Alarming (g.raw ++ reads.flatMap Tick.data))
    (hready : ∀ next : Guest, next.raw = g.raw ++ reads.flatMap Tick.data → ready next = true) :
    ∃ next rest, Guest.wait ready g (reads ++ [last]) = .ok (next, rest) := by
  induction reads generalizing g with
  | nil =>
    obtain ⟨hlate, -⟩ := hruns last (by simp)
    have hnow : ready g = true := hready g (by simp)
    exact ⟨g, [], by simp [Guest.wait, hlate, hnow]⟩
  | cons t reads ih =>
    obtain ⟨⟨hlate, hexited⟩, hruns⟩ := List.forall_mem_cons.mp hruns
    rw [List.flatMap_cons, ← List.append_assoc] at hcalm hready
    simp only [List.cons_append, Guest.wait, hlate]
    rw [if_neg Bool.false_ne_true]
    split
    · exact ⟨_, _, rfl⟩
    · have hraw := (Guest.read_appends g t).1
      rcases Guest.read_follows t hg with ⟨halarm, -⟩ | ⟨-, hnone, hfollows⟩
      · exact absurd (halarm.append _) hcalm
      · rw [hexited] at hnone
        split
        next next hread =>
          rw [hread] at hraw hfollows
          simp only at hraw hfollows
          apply ih hfollows hruns
          · rw [hraw]
            exact hcalm
          · rw [hraw]
            exact hready
        next failure hread =>
          rw [hread] at hnone
          cases hnone

/-! ## The verdict -/

/-- What the command waits for. -/
def hasStatus (decimal : Char → Bool) (hex : Text) (offset : Nat) (g : Guest) : Bool :=
  (statusOf decimal (markerOf hex) (outputFrom g offset)).isSome

/-- A wait that returns leaves a window with a status; what it is decides. -/
theorem command_of_wait {hex : Text} {g next : Guest} {ticks rest : List Tick}
    (h : Guest.wait (hasStatus decimal hex g.raw.length) g ticks = .ok (next, rest)) :
    command decimal hex g ticks =
      let output := outputFrom next g.raw.length
      if statusOf decimal (markerOf hex) output ≠ some ['0'] then
        .error (.command (output.drop (output.length - 3000)))
      else .ok (output, next, rest) := by
  have hwait : Guest.wait (fun g' => (statusOf decimal (text "RAPT_" ++ hex)
    (outputFrom g' g.raw.length)).isSome) g ticks = .ok (next, rest) := h
  rw [command]
  simp only [hwait]
  rfl

theorem command_error {hex : Text} {g : Guest} {ticks : List Tick} {failure : Failure}
    (h : Guest.wait (hasStatus decimal hex g.raw.length) g ticks = .error failure) :
    command decimal hex g ticks = .error failure := by
  have hwait : Guest.wait (fun g' => (statusOf decimal (text "RAPT_" ++ hex)
    (outputFrom g' g.raw.length)).isSome) g ticks = .error failure := h
  rw [command]
  simp only [hwait]
  rfl

/-- Once the wait returns, the command does so for the status 0 and for no other. -/
theorem command_status {hex : Text} {rc : Nat} {printed : Bytes} {g next : Guest}
    {ticks rest : List Tick} (hreplacement : decimal Utf8.replacement = false)
    (hhex : '\n' ∉ hex) (hout : Answered hex rc (window printed))
    (hread : ticks.dropLast.flatMap Tick.data <+: printed)
    (h : Guest.wait (hasStatus decimal hex g.raw.length) g ticks = .ok (next, rest)) :
    (rc = 0 → ∃ result, command decimal hex g ticks = .ok result) ∧
      (rc ≠ 0 → ∃ output, command decimal hex g ticks = .error (.command output)) := by
  obtain ⟨hready, read, hstart, hraw⟩ := wait_ok h
  rw [command_of_wait h, outputFrom_eq g read next hraw]
  rw [hasStatus, outputFrom_eq g read next hraw] at hready
  obtain ⟨digits, hdigits⟩ := Option.isSome_iff_exists.mp hready
  have hzero := status_of_read hreplacement hhex hout (hstart.trans hread) hdigits
  simp only [hdigits]
  constructor
  · intro hrc
    rw [hzero.mpr hrc]
    exact ⟨_, rfl⟩
  · intro hrc
    have hne : some digits ≠ some ['0'] := fun heq => hrc (hzero.mp (Option.some.inj heq))
    exact ⟨_, if_pos hne⟩

theorem zero_of_ok {hex : Text} {rc : Nat} {printed : Bytes} {g : Guest} {ticks : List Tick}
    {result : Text × Guest × List Tick} (hreplacement : decimal Utf8.replacement = false)
    (hhex : '\n' ∉ hex) (hout : Answered hex rc (window printed))
    (hread : ticks.dropLast.flatMap Tick.data <+: printed)
    (h : command decimal hex g ticks = .ok result) : rc = 0 := by
  cases hwait : Guest.wait (hasStatus decimal hex g.raw.length) g ticks with
  | error failure =>
    rw [command_error hwait] at h
    cases h
  | ok r =>
    by_contra hrc
    obtain ⟨output, hraised⟩ := (command_status hreplacement hhex hout hread hwait).2 hrc
    rw [hraised] at h
    cases h

theorem ne_zero_of_error {hex output : Text} {rc : Nat} {printed : Bytes} {g : Guest}
    {ticks : List Tick} (hreplacement : decimal Utf8.replacement = false)
    (hhex : '\n' ∉ hex) (hout : Answered hex rc (window printed))
    (hread : ticks.dropLast.flatMap Tick.data <+: printed)
    (h : command decimal hex g ticks = .error (.command output)) : rc ≠ 0 := by
  intro hrc
  cases hwait : Guest.wait (hasStatus decimal hex g.raw.length) g ticks with
  | error failure =>
    rw [command_error hwait] at h
    cases h
    exact wait_not_command hwait
  | ok r =>
    obtain ⟨result, hreturned⟩ := (command_status hreplacement hhex hout hread hwait).1 hrc
    rw [hreturned] at h
    cases h

/-- However the output is cut, a command that returns had the status 0 and one that raises its own
error had another; while no read raises and the time is not over, it does one of the two. -/
theorem command_verdict (hascii : ∀ c, c.isDigit = true → decimal c = true)
    (hreplacement : decimal Utf8.replacement = false) {hex : Text} (hhex : '\n' ∉ hex) {rc : Nat}
    {printed : Bytes} (hout : Answered hex rc (window printed)) (g : Guest) (reads : List Tick)
    (last : Tick) (hread : reads.flatMap Tick.data <+: printed) :
    (∀ result, command decimal hex g (reads ++ [last]) = .ok result → rc = 0) ∧
    (∀ output, command decimal hex g (reads ++ [last]) = .error (.command output) → rc ≠ 0) ∧
    (reads.flatMap Tick.data = printed → Guest.Follows g → ¬ Guest.Alarming (g.raw ++ printed) →
      (∀ t ∈ reads ++ [last], t.late = false ∧ t.exited = none) →
      ((∃ result, command decimal hex g (reads ++ [last]) = .ok result) ↔ rc = 0) ∧
      ((∃ output, command decimal hex g (reads ++ [last]) = .error (.command output)) ↔
        rc ≠ 0)) := by
  have hdrop : (reads ++ [last]).dropLast.flatMap Tick.data <+: printed := by
    rwa [List.dropLast_concat]
  constructor
  · exact fun result h => zero_of_ok hreplacement hhex hout hdrop h
  constructor
  · exact fun output h => ne_zero_of_error hreplacement hhex hout hdrop h
  · intro hall hg hcalm hruns
    obtain ⟨next, rest, hwait⟩ : ∃ next rest,
        Guest.wait (hasStatus decimal hex g.raw.length) g (reads ++ [last]) = .ok (next, rest) := by
      apply wait_returns hg hruns
      · rwa [hall]
      · intro next hraw
        rw [hasStatus, outputFrom_eq g _ next hraw, hall]
        exact status_of_all hascii hhex hout
    obtain ⟨hzero, hother⟩ := command_status hreplacement hhex hout hdrop hwait
    constructor
    · exact ⟨fun ⟨result, h⟩ => zero_of_ok hreplacement hhex hout hdrop h, hzero⟩
    · exact ⟨fun ⟨output, h⟩ => ne_zero_of_error hreplacement hhex hout hdrop h, hother⟩

theorem not_infix_of_contains {marker out : Text} (h : Console.contains marker out = false) :
    ¬ marker <:+: out := by
  rw [← Console.contains_iff, h]
  exact Bool.false_ne_true

/-- A status 10 of which the second read has the `1`. -/
def cutReads : List Tick :=
  [Guest.chunk (ascii "( set -eu; exit 10 ); rc=$?; printf '\\n%s=%s\\n' RAPT_c0ffee \"$rc\"\r\n"),
   Guest.chunk (ascii "\r\nRAPT_c0ffee=1"), Guest.chunk (ascii "0\r\n# ")]

theorem answered_cutReads :
    Answered (text "c0ffee") 10 (window (cutReads.flatMap Tick.data)) := by
  have hwindow : window (cutReads.flatMap Tick.data) =
      [] ++ (sent (text "c0ffee") (text "exit 10") ++ []) ++
        '\n' :: (statusLine (text "c0ffee") (Nat.toDigits 10 10) ++ '\n' :: text "# ") := by
    decide
  rw [hwindow]
  have hhex : (text "c0ffee").all isHexDigit = true := by decide
  exact answered_of_sent 10 (List.all_eq_true.mp hhex) (not_infix_of_contains (by decide))
    (not_infix_of_contains (by decide)) (not_infix_of_contains (by decide))
    (not_infix_of_contains (by decide))

theorem calm_cutReads : ¬ Guest.Alarming (Guest.start.raw ++ cutReads.flatMap Tick.data) := by
  rintro (⟨line, hline, hfail⟩ | h)
  · revert line
    decide
  · revert h
    decide

theorem command_verdict_cut :
    ∃ output, command Char.isDigit (text "c0ffee") Guest.start
      (cutReads ++ [⟨false, none, none, none, []⟩]) = .error (.command output) :=
  have hverdict := (command_verdict (fun _ h => h) (by decide) (by decide) answered_cutReads
    Guest.start cutReads ⟨false, none, none, none, []⟩ List.prefix_rfl).2.2 rfl
      Guest.follows_start calm_cutReads (by decide)
  hverdict.2.mpr (by decide)

/-- A command that ends with 0 after the kernel has reported a bug. -/
def buggyReads : List Tick :=
  [Guest.chunk (ascii "BUG: soft lockup\r\n\r\nRAPT_c0ffee=0\r\n# ")]

/-- The read raises before the status is looked at. -/
theorem command_raises_at_zero :
    Answered (text "c0ffee") 0 (window (buggyReads.flatMap Tick.data)) ∧
      command Char.isDigit (text "c0ffee") Guest.start
        (buggyReads ++ [⟨false, none, none, none, []⟩]) = .error .marker := by
  constructor
  · have hwindow : window (buggyReads.flatMap Tick.data) = text "BUG: soft lockup\n" ++
        '\n' :: (statusLine (text "c0ffee") (Nat.toDigits 10 0) ++ '\n' :: text "# ") := by
      decide
    exact ⟨_, _, hwindow, not_infix_of_contains (by decide),
      not_infix_of_contains (by decide)⟩
  · rfl

end LinuxBuild.DistroRuntime
