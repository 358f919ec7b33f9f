import LinuxBuild.Guest
import LinuxBuild.CutText
import Mathlib.Data.List.Forall2

/-!
# How the console is cut

What `Guest.read` keeps and raises is a function of the bytes printed so far,
not of the chunks `os.read` gave them in.
-/

namespace LinuxBuild

/-- A failure that is read off the console. -/
def Failure.onConsole : Failure → Bool
  | .line _ => true
  | .marker => true
  | _ => false

namespace Guest

/-- Reads one after another, up to the first that raises. -/
def feed (g : Guest) : List Tick → Guest × Option Failure
  | [] => (g, none)
  | t :: ticks =>
    match g.read t with
    | (g, none) => feed g ticks
    | (g, some failure) => (g, some failure)

/-! ## What a stream says -/

/-- The lines of a stream that a newline ends. -/
def completeLines (raw : Bytes) : List Bytes := (raw.splitOn lf).dropLast

/-- A marker line is kept where it first occurs. -/
def note (events : List Text) (line : Text) : List Text :=
  if eventLines.contains line && !events.contains line then events ++ [line] else events

def recorded (raw : Bytes) : List Text := ((completeLines raw).map Console.textOf).foldl note []

def Alarming (raw : Bytes) : Prop :=
  (∃ line ∈ completeLines raw, Console.textOf line ∈ failLines) ∨
    Console.failureIn (Console.textOf raw) = true

theorem foldl_note_eq (lines events : List Text) :
    lines.foldl note events = events ++ (lines.filter fun line =>
      eventLines.contains line && !events.contains line).eraseDups := by
  induction lines generalizing events with
  | nil => simp
  | cons line lines ih =>
    rw [List.foldl_cons, ih, note, List.filter_cons]
    by_cases h : (eventLines.contains line && !events.contains line) = true
    · have hnew : ∀ other, (eventLines.contains other && !(events ++ [line]).contains other) =
          (!other == line && (eventLines.contains other && !events.contains other)) := by
        intro other
        rw [Bool.eq_iff_iff]
        simp only [Bool.and_eq_true, Bool.not_eq_true', List.contains_eq_mem, List.mem_append,
          List.mem_singleton, decide_eq_true_eq, decide_eq_false_iff_not, beq_eq_false_iff_ne]
        tauto
      rw [if_pos h, if_pos h, List.eraseDups_cons, List.filter_filter, List.append_assoc]
      simp only [hnew]
      rfl
    · rw [if_neg h, if_neg h]

/-- The marker lines of a stream, each where it first occurs. -/
theorem recorded_eq (raw : Bytes) : recorded raw =
    (((completeLines raw).map Console.textOf).filter eventLines.contains).eraseDups := by
  rw [recorded, foldl_note_eq]
  simp only [List.contains_nil, Bool.not_false, Bool.and_true, List.nil_append]

theorem completeLines_eq (raw : Bytes) : ∃ last, raw.splitOn lf = completeLines raw ++ [last] := by
  obtain ⟨pieces, last, h⟩ := Bytes.splitOn_concat lf raw
  exact ⟨last, by rw [completeLines, h, List.dropLast_concat]⟩

theorem completeLines_append {raw last : Bytes} (h : raw.splitOn lf = completeLines raw ++ [last])
    (data : Bytes) :
    completeLines (raw ++ data) = completeLines raw ++ completeLines (last ++ data) := by
  have hne := List.splitOn_ne_nil lf (last ++ data)
  rw [completeLines, Bytes.splitOn_append h, List.dropLast_append_of_ne_nil hne]
  rfl

theorem recorded_append {raw last : Bytes} (h : raw.splitOn lf = completeLines raw ++ [last])
    (data : Bytes) : recorded (raw ++ data) =
      ((completeLines (last ++ data)).map Console.textOf).foldl note (recorded raw) := by
  rw [recorded, completeLines_append h, List.map_append, List.foldl_append]
  rfl

/-- What has alarmed goes on doing so. -/
theorem Alarming.append {raw : Bytes} (h : Alarming raw) (data : Bytes) :
    Alarming (raw ++ data) := by
  rcases h with ⟨line, hline, hfail⟩ | hmarker
  · left
    obtain ⟨last, hlast⟩ := completeLines_eq raw
    refine ⟨line, ?_, hfail⟩
    rw [completeLines_append hlast]
    exact List.mem_append_left _ hline
  · right
    obtain ⟨marker, hmem, hin⟩ := (Console.failureIn_iff _).mp hmarker
    have hkeep := Console.contains_append (Console.failures_isMarker marker hmem) hin data
    exact (Console.failureIn_iff _).mpr ⟨marker, hmem, hkeep⟩

/-! ## Lines of a cut text -/

theorem lines_ascii :
    (eventLines ++ failLines).all (fun line => line.all fun c => c.toNat < 0x80) = true := by
  decide

theorem clean_eq_iff {bytes : Bytes} {t line : Text} (h : Utf8.Shows bytes t)
    (hline : line ∈ eventLines ++ failLines) :
    Console.clean t = line ↔ Console.textOf bytes = line := by
  have hascii := List.all_eq_true.mp lines_ascii line hline
  apply Console.clean_eq_iff h (Utf8.decode_shows bytes)
  intro c hc
  exact of_decide_eq_true (List.all_eq_true.mp hascii c hc)

theorem clean_mem_iff {bytes : Bytes} {t : Text} {lines : List Text} (h : Utf8.Shows bytes t)
    (hlines : lines ⊆ eventLines ++ failLines) :
    Console.clean t ∈ lines ↔ Console.textOf bytes ∈ lines := by
  constructor
  · intro hmem
    rwa [(clean_eq_iff h (hlines hmem)).mp rfl]
  · intro hmem
    rwa [(clean_eq_iff h (hlines hmem)).mpr rfl]

theorem note_clean {bytes : Bytes} {t : Text} (h : Utf8.Shows bytes t) (events : List Text) :
    note events (Console.clean t) = note events (Console.textOf bytes) := by
  by_cases hmem : Console.clean t ∈ eventLines
  · rw [(clean_eq_iff h (List.mem_append_left _ hmem)).mp rfl]
  · have hmem' : Console.textOf bytes ∉ eventLines :=
      fun hbytes => hmem ((clean_mem_iff h (List.subset_append_left _ _)).mpr hbytes)
    simp [note, hmem, hmem']

/-- Lines of a cut text leave the events that the lines of the bytes do. -/
theorem foldl_note {lines : List Bytes} {texts : List Text}
    (h : List.Forall₂ Utf8.Shows lines texts) (events : List Text) :
    (texts.map Console.clean).foldl note events =
      (lines.map Console.textOf).foldl note events := by
  induction h generalizing events with
  | nil => rfl
  | cons hline _ ih =>
    simp only [List.map_cons, List.foldl_cons]
    rw [note_clean hline, ih]

theorem fails_iff {lines : List Bytes} {texts : List Text}
    (h : List.Forall₂ Utf8.Shows lines texts) :
    (∃ t ∈ texts, Console.clean t ∈ failLines) ↔
      ∃ line ∈ lines, Console.textOf line ∈ failLines := by
  induction h with
  | nil => simp
  | cons hline _ ih =>
    simp only [List.exists_mem_cons_iff, ih, clean_mem_iff hline (List.subset_append_right _ _)]

/-! ## The `while` of a read -/

theorem scanLines_cons (events : List Text) (t : Text) {rest : List Text} (h : rest ≠ []) :
    scanLines events (t :: rest) =
      if Console.clean t ∈ failLines then
        (Python.join ['\n'] rest, note events (Console.clean t), some (Console.clean t))
      else scanLines (note events (Console.clean t)) rest := by
  obtain ⟨u, rest, rfl⟩ := List.exists_cons_of_ne_nil h
  simp only [scanLines, note, List.contains_iff_mem]

theorem scanLines_clean {texts : List Text} (last : Text) (events : List Text)
    (h : ¬ ∃ t ∈ texts, Console.clean t ∈ failLines) :
    scanLines events (texts ++ [last]) =
      (last, (texts.map Console.clean).foldl note events, none) := by
  induction texts generalizing events with
  | nil => rfl
  | cons t texts ih =>
    simp only [List.exists_mem_cons_iff, not_or] at h
    rw [List.cons_append, scanLines_cons events t (by simp), if_neg h.1]
    exact ih _ h.2

theorem scanLines_fails {texts : List Text} (last : Text) (events : List Text)
    (h : ∃ t ∈ texts, Console.clean t ∈ failLines) :
    ∃ line, (scanLines events (texts ++ [last])).2.2 = some line := by
  induction texts generalizing events with
  | nil => simp at h
  | cons t texts ih =>
    rw [List.cons_append, scanLines_cons events t (by simp)]
    by_cases ht : Console.clean t ∈ failLines
    · rw [if_pos ht]
      exact ⟨_, rfl⟩
    · rw [if_neg ht]
      rw [List.exists_mem_cons_iff] at h
      exact ih _ (h.resolve_left ht)

/-! ## A read -/

/-- A guest has kept what the bytes it printed say, and they do not alarm. -/
structure Follows (g : Guest) : Prop where
  line : ∃ last, g.raw.splitOn lf = completeLines g.raw ++ [last] ∧ Utf8.Shows last g.partialLine
  newline : '\n' ∉ g.partialLine
  events : g.events = recorded g.raw
  calm : ¬ Alarming g.raw

theorem follows_start : Follows start where
  line := ⟨[], rfl, Utf8.shows_nil⟩
  newline := by decide
  events := rfl
  calm := by
    rintro (⟨line, hline, _⟩ | h)
    · cases hline
    · revert h
      decide

theorem forall₂_concat {α β : Type} {R : α → β → Prop} {as : List α} {bs : List β} {a : α} {b : β}
    (h : List.Forall₂ R (as ++ [a]) (bs ++ [b])) : List.Forall₂ R as bs ∧ R a b := by
  rw [← List.forall₂_reverse_iff, List.reverse_concat, List.reverse_concat, List.forall₂_cons] at h
  exact ⟨List.forall₂_reverse_iff.mp h.2, h.1⟩

/-- The lines a chunk ends, as the bytes have them and as they are decoded. -/
theorem chunk_lines {line : Bytes} {t : Text} (h : Utf8.Shows line t) (hline : lf ∉ line)
    (ht : '\n' ∉ t) (data : Bytes) :
    ∃ last texts rest, (line ++ data).splitOn lf = completeLines (line ++ data) ++ [last] ∧
      (t ++ Utf8.decode data).splitOn '\n' = texts ++ [rest] ∧
      List.Forall₂ Utf8.Shows (completeLines (line ++ data)) texts ∧ Utf8.Shows last rest := by
  obtain ⟨last, hlast⟩ := completeLines_eq (line ++ data)
  obtain ⟨texts, rest, hrest⟩ := Bytes.splitOn_concat '\n' (t ++ Utf8.decode data)
  have hpieces := h.splitOn hline ht data
  rw [hlast, hrest] at hpieces
  obtain ⟨hlines, hlast'⟩ := forall₂_concat hpieces
  exact ⟨last, texts, rest, hlast, hrest, hlines, hlast'⟩

/-- What a read keeps that raises nothing off the console. -/
theorem read_quiet {g : Guest} {t : Tick} {data : Bytes} {texts : List Text} {rest : Text}
    (hchunk : t.chunk = some data)
    (hrest : (g.partialLine ++ Utf8.decode data).splitOn '\n' = texts ++ [rest])
    (hlines : ¬ ∃ t ∈ texts, Console.clean t ∈ failLines)
    (hmarker : Console.failureIn (Console.textOf (g.raw ++ data)) = false) :
    g.read t = (⟨g.raw ++ data, g.log ++ data, rest,
      (texts.map Console.clean).foldl note g.events⟩, t.exited.map .exited) := by
  simp [read, hchunk, hrest, scanLines_clean rest g.events hlines, Guest.text, hmarker]

theorem read_follows {g : Guest} (t : Tick) (hg : Follows g) :
    Alarming (g.raw ++ t.data) ∧ (g.read t).2.any Failure.onConsole = true ∨
      ¬ Alarming (g.raw ++ t.data) ∧ (g.read t).2 = t.exited.map .exited ∧
        Follows (g.read t).1 := by
  cases hchunk : t.chunk with
  | none =>
    right
    simp only [Tick.data, hchunk, read, Option.getD_none, List.append_nil]
    exact ⟨hg.calm, trivial, hg⟩
  | some data =>
    obtain ⟨⟨last, hlast, hshows⟩, hnewline, hevents, hcalm⟩ := hg
    have hlf : lf ∉ last := Bytes.splitOn_not_mem (b := g.raw) (by simp [hlast])
    obtain ⟨last', texts, rest, hlast', hrest, hlines, hshows'⟩ :=
      chunk_lines hshows hlf hnewline data
    have hcomplete := completeLines_append hlast data
    have hdata : t.data = data := by rw [Tick.data, hchunk, Option.getD_some]
    rw [hdata]
    by_cases hfail : ∃ t ∈ texts, Console.clean t ∈ failLines
    · left
      obtain ⟨line, hmem, hline⟩ := (fails_iff hlines).mp hfail
      obtain ⟨raised, hraised⟩ := scanLines_fails rest g.events hfail
      refine ⟨.inl ⟨line, ?_, hline⟩, by simp [read, hchunk, hrest, hraised, Failure.onConsole]⟩
      rw [hcomplete]
      exact List.mem_append_right _ hmem
    cases hmarker : Console.failureIn (Console.textOf (g.raw ++ data)) with
    | true =>
      left
      refine ⟨.inr hmarker, ?_⟩
      simp [read, hchunk, hrest, scanLines_clean rest g.events hfail, Guest.text, hmarker,
        Failure.onConsole]
    | false =>
      right
      have hcalm' : ¬ Alarming (g.raw ++ data) := by
        rintro (⟨line, hmem, hline⟩ | h)
        · rw [hcomplete] at hmem
          rcases List.mem_append.mp hmem with hold | hnew
          · exact hcalm (.inl ⟨line, hold, hline⟩)
          · exact hfail ((fails_iff hlines).mpr ⟨line, hnew, hline⟩)
        · rw [hmarker] at h
          cases h
      rw [read_quiet hchunk hrest hfail hmarker]
      refine ⟨hcalm', rfl, ⟨⟨last', ?_, hshows'⟩, ?_, ?_, hcalm'⟩⟩
      · rw [Bytes.splitOn_append hlast, hlast', hcomplete, List.append_assoc]
      · exact Bytes.splitOn_not_mem (b := g.partialLine ++ Utf8.decode data) (by simp [hrest])
      · rw [recorded_append hlast, ← hevents, foldl_note hlines]

/-! ## A run of reads -/

theorem feed_raises {g : Guest} {t : Tick} {failure : Failure} (h : (g.read t).2 = some failure)
    (ticks : List Tick) : feed g (t :: ticks) = ((g.read t).1, some failure) := by
  rw [feed]
  split
  · rename_i heq
    rw [heq] at h
    cases h
  · rename_i heq
    rw [heq] at h ⊢
    cases h
    rfl

theorem feed_goes_on {g : Guest} {t : Tick} (h : (g.read t).2 = none) (ticks : List Tick) :
    feed g (t :: ticks) = feed (g.read t).1 ticks := by
  rw [feed]
  split
  · rename_i heq
    rw [heq]
  · rename_i heq
    rw [heq] at h
    cases h

/-- However a stream is cut, a run alarms exactly if the stream does, and else
keeps what the stream says. -/
theorem feed_follows {g : Guest} {ticks : List Tick} (hg : Follows g)
    (hexit : ∀ t ∈ ticks.dropLast, t.exited = none) :
    Alarming (g.raw ++ ticks.flatMap Tick.data) ∧
        (feed g ticks).2.any Failure.onConsole = true ∨
      ¬ Alarming (g.raw ++ ticks.flatMap Tick.data) ∧
        (feed g ticks).2.any Failure.onConsole = false ∧ Follows (feed g ticks).1 ∧
        (feed g ticks).1.raw = g.raw ++ ticks.flatMap Tick.data := by
  induction ticks generalizing g with
  | nil =>
    right
    rw [List.flatMap_nil, List.append_nil]
    exact ⟨hg.calm, rfl, hg, rfl⟩
  | cons t ticks ih =>
    obtain ⟨hraw, _⟩ := read_appends g t
    rw [List.flatMap_cons, ← List.append_assoc]
    rcases read_follows t hg with ⟨halarm, hraised⟩ | ⟨hcalm, hexited, hfollows⟩
    · left
      obtain ⟨failure, hfailure, _⟩ := Option.any_eq_true _ _ |>.mp hraised
      rw [feed_raises hfailure, ← hfailure]
      exact ⟨halarm.append _, hraised⟩
    · cases hcode : t.exited with
      | none =>
        rw [hcode] at hexited
        rw [feed_goes_on hexited, ← hraw]
        apply ih hfollows
        intro t' ht'
        cases ticks with
        | nil => cases ht'
        | cons u ticks => exact hexit t' (List.mem_cons_of_mem _ ht')
      | some code =>
        -- QEMU has exited, so this is the last read
        cases ticks with
        | nil =>
          right
          rw [hcode] at hexited
          rw [feed_raises hexited, List.flatMap_nil, List.append_nil]
          exact ⟨hcalm, rfl, hfollows, hraw⟩
        | cons u ticks =>
          rw [hexit t List.mem_cons_self] at hcode
          cases hcode

/-- Two runs over one stream, cut in any two ways, raise a console failure both
or neither, and without one they end alike. -/
theorem feed_chunk_independent {stream : Bytes} {ticks ticks' : List Tick}
    (h : ticks.flatMap Tick.data = stream) (h' : ticks'.flatMap Tick.data = stream)
    (hexit : ∀ t ∈ ticks.dropLast, t.exited = none)
    (hexit' : ∀ t ∈ ticks'.dropLast, t.exited = none) :
    (feed start ticks).2.any Failure.onConsole = (feed start ticks').2.any Failure.onConsole ∧
      ((feed start ticks).2.any Failure.onConsole = false →
        (feed start ticks).1.text = (feed start ticks').1.text ∧
        (feed start ticks).1.events = (feed start ticks').1.events) := by
  have hrun := feed_follows follows_start hexit
  have hrun' := feed_follows follows_start hexit'
  rw [h] at hrun
  rw [h'] at hrun'
  rcases hrun with ⟨halarm, hraised⟩ | ⟨hcalm, hquiet, hfollows, hraw⟩
  · obtain ⟨_, hraised'⟩ := hrun'.resolve_right fun hcalm => hcalm.1 halarm
    rw [hraised, hraised']
    exact ⟨rfl, fun hfalse => by cases hfalse⟩
  · obtain ⟨_, hquiet', hfollows', hraw'⟩ := hrun'.resolve_left fun halarm => hcalm halarm.1
    refine ⟨by rw [hquiet, hquiet'], fun _ => ⟨?_, ?_⟩⟩
    · rw [Guest.text, Guest.text, hraw, hraw']
    · rw [hfollows.events, hfollows'.events, hraw, hraw']

/-- A chunk that is printed while QEMU runs. -/
def chunk (data : Bytes) : Tick := ⟨false, some data, none, none, []⟩

/-- A sequence, a character and a line are cut. -/
def sampleChunks : List Bytes :=
  [ascii "RAPT_ACC", ascii "EPT_BEGIN\x1b[", ascii "0m\r\nk\xc3", ascii "\xa9\nRAPT_CHILD_PASS"]

theorem feed_chunk_independent_sample :
    (feed start (sampleChunks.map chunk)).1.text =
        (feed start [chunk sampleChunks.flatten]).1.text ∧
      (feed start (sampleChunks.map chunk)).1.events =
        (feed start [chunk sampleChunks.flatten]).1.events :=
  (feed_chunk_independent (by rfl) (by decide) (by decide) (by decide)).2 (by decide)

example :
    (feed start (sampleChunks.map chunk)).1.events = [LinuxBuild.text "RAPT_ACCEPT_BEGIN"] := by
  decide

/-- What a wait leaves is what the stream says, whatever it waited for. -/
theorem wait_follows {ready : Guest → Bool} {g g' : Guest} {ticks rest : List Tick}
    (hg : Follows g) (h : wait ready g ticks = .ok (g', rest)) : Follows g' := by
  induction ticks generalizing g with
  | nil => cases h
  | cons t ticks ih =>
    simp only [wait] at h
    split at h
    · cases h
    split at h
    · cases h
      exact hg
    split at h
    · rename_i next hread
      apply ih _ h
      rcases read_follows t hg with ⟨_, hraised⟩ | ⟨_, _, hfollows⟩
      · rw [hread] at hraised
        cases hraised
      · rw [hread] at hfollows
        exact hfollows
    · cases h

end Guest

end LinuxBuild
