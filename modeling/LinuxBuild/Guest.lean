import LinuxBuild.Console

/-!
# The guest console

`Guest.read` and `Guest.wait` of `test-packages.py`. Each turn of a waiting
loop takes one `Tick` of answers from outside.
-/

namespace LinuxBuild

/-- What a turn of a waiting loop finds: whether the time is over, what
`select` and `os.read` give, what `poll` says in the read and after it, and
what the pipe still holds. -/
structure Tick where
  late : Bool
  chunk : Option Bytes
  exited : Option Int
  later : Option Int
  rest : Bytes

def Tick.data (t : Tick) : Bytes := t.chunk.getD []

/-- A process that has exited stays so. -/
def Tick.polled (t : Tick) : Option Int := t.exited.orElse fun _ => t.later

inductive Failure
  | line (text : Text)
  | marker
  | exited (code : Int)
  | timeout
  | bootFailed
  | command (output : Text)
  | noBootId
  | ssh
  | noReboot
  | running
  deriving DecidableEq

/-- `partial` is the unfinished line. -/
structure Guest where
  raw : Bytes
  log : Bytes
  partialLine : Text
  events : List Text

namespace Guest

def start : Guest := ⟨[], [], [], []⟩

def text (g : Guest) : Text := Console.textOf g.raw

/-- `BR_MARKERS + ['RAPT_BASELINE_PASS']`. -/
def eventLines : List Text :=
  [LinuxBuild.text "RAPT_ACCEPT_BEGIN", LinuxBuild.text "RAPT_CHILD_COUNT=100",
   LinuxBuild.text "RAPT_CHILD_PASS", LinuxBuild.text "RAPT_SLEEP_BEGIN",
   LinuxBuild.text "RAPT_SLEEP_PASS", LinuxBuild.text "RAPT_ACCEPT_END",
   LinuxBuild.text "RAPT_BASELINE_PASS"]

def failLines : List Text :=
  [LinuxBuild.text "RAPT_CHILD_FAIL", LinuxBuild.text "RAPT_SLEEP_FAIL",
   LinuxBuild.text "RAPT_BASELINE_FAIL"]

/-- The `while` of `Guest.read`: the pieces between newlines, the last of them
unfinished. -/
def scanLines (events : List Text) : List Text → Text × List Text × Option Text
  | [] => ([], events, none)
  | [last] => (last, events, none)
  | line :: rest =>
    let line := Console.clean line
    let events := if eventLines.contains line && !events.contains line then events ++ [line]
      else events
    if failLines.contains line then (Python.join ['\n'] rest, events, some line)
    else scanLines events rest

def read (g : Guest) (t : Tick) : Guest × Option Failure :=
  match t.chunk with
  | none => (g, t.exited.map .exited)
  | some data =>
    let scan := scanLines g.events ((g.partialLine ++ Utf8.decode data).splitOn '\n')
    let g : Guest := ⟨g.raw ++ data, g.log ++ data, scan.1, scan.2.1⟩
    match scan.2.2 with
    | some line => (g, some (.line line))
    | none =>
      if Console.failureIn g.text then (g, some .marker) else (g, t.exited.map .exited)

def wait (ready : Guest → Bool) (g : Guest) : List Tick → Except Failure (Guest × List Tick)
  | [] => .error .running
  | t :: ticks =>
    if t.late then .error .timeout
    else if ready g then .ok (g, ticks)
    else
      match g.read t with
      | (g, none) => wait ready g ticks
      | (_, some failure) => .error failure

/-! ## What the reads leave -/

/-- The log is what was read, and no failure marker stands in it. -/
structure Scanned (g : Guest) : Prop where
  log : g.log = g.raw
  clean : Console.failureIn g.text = false

theorem scanned_start : Scanned start := ⟨rfl, by decide⟩

theorem read_appends (g : Guest) (t : Tick) :
    (g.read t).1.raw = g.raw ++ t.data ∧ (g.read t).1.log = g.log ++ t.data := by
  unfold read Tick.data
  cases t.chunk with
  | none => simp
  | some data =>
    simp only
    split
    · exact ⟨rfl, rfl⟩
    · split <;> exact ⟨rfl, rfl⟩

theorem read_scanned {g : Guest} {t : Tick} (hg : Scanned g) (h : (g.read t).2 = none) :
    Scanned (g.read t).1 := by
  obtain ⟨hraw, hlog⟩ := read_appends g t
  constructor
  · rw [hraw, hlog, hg.log]
  · revert h
    unfold read
    cases t.chunk with
    | none => exact fun _ => hg.clean
    | some data =>
      simp only
      split
      · exact fun h => nomatch h
      · split
        · exact fun h => nomatch h
        · rename_i hclean
          exact fun _ => Bool.eq_false_iff.mpr hclean

theorem wait_scanned {ready : Guest → Bool} {g g' : Guest} {ticks rest : List Tick}
    (hg : Scanned g) (h : wait ready g ticks = .ok (g', rest)) : Scanned g' := by
  induction ticks generalizing g with
  | nil => cases h
  | cons t ticks ih =>
    simp only [wait] at h
    split at h
    · cases h
    · split at h
      · cases h
        exact hg
      · have hread := read_scanned (t := t) hg
        revert h hread
        generalize g.read t = r
        obtain ⟨next, failure⟩ := r
        intro h hread
        cases failure with
        | none => exact ih (hread rfl) h
        | some failure => cases h

end Guest

end LinuxBuild
