import Mathlib.Data.List.TakeWhile
import Mathlib.Logic.Function.Basic

/-!
# Files written one after another

Each is rendered just before it is written. A file whose rendering fails ends
the run, and what was written before it stays.
-/

namespace Staged

variable {File Contents Error : Type}

/-- What every file holds; `none` is no file. -/
abbrev Dir (File Contents : Type) := File → Option Contents

/-- Render and write the files in turn. -/
def run [DecidableEq File] (render : File → Except Error (Option Contents)) :
    List File → Dir File Contents → Except Error Unit × Dir File Contents
  | [], dir => (.ok (), dir)
  | file :: files, dir =>
    match render file with
    | .ok contents => run render files (Function.update dir file contents)
    | .error e => (.error e, dir)

/-- The files before the first one whose rendering fails. -/
def rendered (render : File → Except Error (Option Contents)) (files : List File) : List File :=
  files.takeWhile fun file => (render file).isOk

/-- The file holds what is rendered for it. -/
def Holds (render : File → Except Error (Option Contents)) (dir : Dir File Contents)
    (file : File) : Prop := render file = .ok (dir file)

variable {render : File → Except Error (Option Contents)}

theorem rendered_cons_ok {file : File} {contents : Option Contents}
    (h : render file = .ok contents) (files : List File) :
    rendered render (file :: files) = file :: rendered render files :=
  List.takeWhile_cons_of_pos (by rw [h]; rfl)

theorem rendered_cons_error {file : File} (h : ¬ (render file).isOk = true)
    (files : List File) : rendered render (file :: files) = [] :=
  List.takeWhile_cons_of_neg h

section
variable [DecidableEq File]

theorem run_cons_ok {file : File} {contents : Option Contents} (h : render file = .ok contents)
    (files : List File) (dir : Dir File Contents) :
    run render (file :: files) dir = run render files (Function.update dir file contents) := by
  rw [run, h]

theorem run_cons_error {file : File} {e : Error} (h : render file = .error e)
    (files : List File) (dir : Dir File Contents) :
    run render (file :: files) dir = (.error e, dir) := by
  rw [run, h]

/-- A run completes when every file is rendered. -/
theorem run_ok_iff (files : List File) (dir : Dir File Contents) :
    (run render files dir).1 = .ok () ↔ ∀ file ∈ files, (render file).isOk = true := by
  induction files generalizing dir with
  | nil => simp [run]
  | cons file files ih =>
    rw [List.forall_mem_cons]
    cases h : render file with
    | ok contents =>
      rw [run_cons_ok h, ih]
      simp [Except.isOk, Except.toBool]
    | error e =>
      rw [run_cons_error h]
      simp [Except.isOk, Except.toBool]

theorem run_frame {files : List File} {other : File} (h : other ∉ files)
    (dir : Dir File Contents) : (run render files dir).2 other = dir other := by
  induction files generalizing dir with
  | nil => rfl
  | cons file files ih =>
    rw [List.mem_cons, not_or] at h
    cases hrender : render file with
    | ok contents => rw [run_cons_ok hrender, ih h.2, Function.update_of_ne h.1]
    | error e => rw [run_cons_error hrender]

/-- Before the first failure every file is written, past it none. -/
theorem run_holds {files : List File} (hnodup : files.Nodup) (dir : Dir File Contents)
    (file : File) :
    (file ∈ rendered render files → Holds render (run render files dir).2 file) ∧
      (file ∉ rendered render files → (run render files dir).2 file = dir file) := by
  induction files generalizing dir with
  | nil => exact ⟨fun h => absurd h List.not_mem_nil, fun _ => rfl⟩
  | cons first files ih =>
    obtain ⟨hnot, hfiles⟩ := List.nodup_cons.mp hnodup
    cases h : render first with
    | error e =>
      have hfails : ¬ (render first).isOk = true := by
        rw [h]
        exact Bool.false_ne_true
      rw [rendered_cons_error hfails, run_cons_error h]
      exact ⟨fun h => absurd h List.not_mem_nil, fun _ => rfl⟩
    | ok contents =>
      rw [rendered_cons_ok h, run_cons_ok h]
      obtain ⟨hin, hout⟩ := ih hfiles (Function.update dir first contents)
      constructor
      · intro hmem
        rcases List.mem_cons.mp hmem with rfl | hmem
        · rw [Holds, run_frame hnot, Function.update_self, h]
        · exact hin hmem
      · intro hmem
        rw [List.mem_cons, not_or] at hmem
        rw [hout hmem.2, Function.update_of_ne hmem.1]

/-- A run changes nothing exactly when the files that it writes were like that already. -/
theorem run_unchanged_iff {files : List File} (hnodup : files.Nodup) (dir : Dir File Contents) :
    (run render files dir).2 = dir ↔ ∀ file ∈ rendered render files, Holds render dir file := by
  constructor
  · intro hsame file hfile
    have hrun := (run_holds hnodup dir file).1 hfile
    rwa [hsame] at hrun
  · intro hdir
    funext file
    by_cases hfile : file ∈ rendered render files
    · have hrun : render file = .ok _ := (run_holds hnodup dir file).1 hfile
      rw [hdir file hfile] at hrun
      exact (Except.ok.inj hrun).symm
    · exact (run_holds hnodup dir file).2 hfile

/-- After a completed run every file holds what is rendered for it. -/
theorem run_holds_of_ok {files : List File} (hnodup : files.Nodup) {dir : Dir File Contents}
    (h : (run render files dir).1 = .ok ()) {file : File} (hfile : file ∈ files) :
    Holds render (run render files dir).2 file := by
  have hall := (run_ok_iff files dir).mp h
  have hrendered : rendered render files = files := List.takeWhile_eq_self_iff.mpr hall
  apply (run_holds hnodup dir file).1
  rw [hrendered]
  exact hfile

end

end Staged
