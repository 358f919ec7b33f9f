import Mathlib.Data.List.TakeWhile
import LinuxBuild.History
import LinuxBuild.Kconfig
import LinuxBuild.Util

/-!
# The kernel build directories of the `Makefile`

`configure_kernel` and `build_linux` of any settings, each stopped anywhere,
with one `BUILD_ROOT`.
-/

namespace LinuxBuild.KernelDir

open Crash
open Kconfig (Variant)

/-- The variables that choose a directory and what is built in it. -/
structure Setting where
  variant : Variant
  bits : Word
  preset : Text
  version : Text
  deriving DecidableEq

def bitsText : Word → Text
  | .rv32 => text "32"
  | .rv64 => text "64"

/-- `OBJDIR`, below `BUILD_ROOT`. -/
def objdir (s : Setting) : Text :=
  match s.variant with
  | .distro => s.preset ++ text "-kernel"
  | .buildroot => text "buildroot" ++ bitsText s.bits ++ text "-kernel"
  | .minimal => text "build" ++ bitsText s.bits

/-- A file of a build directory: the stamp, or what `make` leaves from the
sources and the configuration of a setting. -/
inductive File where
  | stamp (content : Text)
  | made (by_ : Setting)
  deriving DecidableEq

abbrev Dir := Text → Option File

abbrev World := Text → Option Dir

def stampName : Text := text ".kernel-version"

/-- What `make` is asked for: `configure_kernel` with what is built behind it, or
a target that builds in the directory as it is. -/
inductive Target where
  | configureKernel
  | makeInitramfsTinyShell
  | installInitramfs
  deriving DecidableEq

/-- `removed` is the order in which `rm -rf` takes the files away, `built` the
files the compilers write. -/
structure Run where
  target : Target
  setting : Setting
  removed : List Text
  built : List Text
  version : setting.version ≠ []
  oneLine : '\n' ∉ setting.version
  foreign : stampName ∉ built

def setFile (name : Text) (file : Option File) (d : Dir) : Dir :=
  fun n => if n = name then file else d n

/-- An act on the directory of a setting, if it is there. -/
def inDir (path : Text) (f : Dir → Option Dir) (w : World) : World :=
  fun p => if p = path then (w p).bind f else w p

def mkdir (path : Text) (w : World) : World :=
  fun p => if p = path then some ((w p).getD fun _ => none) else w p

def remove (path name : Text) : World → World := inDir path fun d => some (setFile name none d)

def rmdir (path : Text) : World → World := inDir path fun _ => none

def write (path name : Text) (file : File) : World → World :=
  inDir path fun d => some (setFile name (some file) d)

/-- `$(cat file)`. -/
def substituted (content : Text) : Text := (content.reverse.dropWhile (· = '\n')).reverse

/-- `[ ! -f stamp ] || [ "$(cat stamp)" != version ]`, where there is a directory. -/
def stale (s : Setting) (w : World) : Bool :=
  match w (objdir s) with
  | none => false
  | some d =>
    match d stampName with
    | some (.stamp content) => substituted content ≠ s.version
    | _ => true

def stampText (s : Setting) : Text := s.version ++ ['\n']

def build (r : Run) : Prog World Empty :=
  acts (r.built.map fun name => write (objdir r.setting) name (.made r.setting)) .done

/-- The shell opens the stamp before `printf` writes it. -/
def main (r : Run) : Prog World Empty :=
  let path := objdir r.setting
  match r.target with
  | .configureKernel =>
    .ask fun w =>
      acts (if stale r.setting w then r.removed.map (remove path) ++ [rmdir path] else []) <|
        acts [mkdir path, write path stampName (.stamp []),
          write path stampName (.stamp (stampText r.setting))] (build r)
  | .makeInitramfsTinyShell => .act (mkdir path) (build r)
  | .installInitramfs => build r

/-! ## One version in a directory -/

variable (Known Stray : Setting → Prop)

/-- Made from one version, but for what was built without a look at the stamp. -/
def OfVersion (v : Text) (d : Dir) : Prop :=
  ∀ name s, d name = some (.made s) → s.version = v ∨ Stray s

/-- A directory holds what was made in it, all of the version of its stamp but what
is stray. A stamp that was only opened says nothing. -/
structure Sound (w : World) : Prop where
  own : ∀ path d name s, w path = some d → d name = some (.made s) → objdir s = path ∧ Known s
  stamped : ∀ path d content, w path = some d → d stampName = some (.stamp content) →
    content = [] ∨ ∃ v, v ≠ [] ∧ '\n' ∉ v ∧ content = v ++ ['\n'] ∧ OfVersion Stray v d

/-- The run meets no whole stamp of another version, or looks at it first. -/
def Run.Guarded (r : Run) (w : World) : Prop :=
  r.target ≠ .configureKernel → ∀ d content, w (objdir r.setting) = some d →
    d stampName = some (.stamp content) → content = [] ∨ content = stampText r.setting

theorem substituted_stamp {v : Text} (h : '\n' ∉ v) : substituted (v ++ ['\n']) = v := by
  rw [substituted, List.reverse_append, List.reverse_singleton, List.singleton_append,
    List.dropWhile_cons_of_pos (by simp)]
  have hself : v.reverse.dropWhile (· = '\n') = v.reverse := by
    apply List.dropWhile_eq_self_iff.mpr
    intro hlen heq
    apply h
    rw [← List.mem_reverse, ← of_decide_eq_true heq]
    exact List.getElem_mem hlen
  rw [hself, List.reverse_reverse]

theorem inDir_self (path : Text) (f : Dir → Option Dir) (w : World) :
    inDir path f w path = (w path).bind f := if_pos rfl

theorem inDir_other {path p : Text} (f : Dir → Option Dir) (w : World) (h : p ≠ path) :
    inDir path f w p = w p := if_neg h

namespace Sound

variable {Known Stray : Setting → Prop} {w : World}

/-- One directory is replaced by a sound one, or removed. -/
theorem inDir (h : Sound Known Stray w) (path : Text) (f : Dir → Option Dir)
    (hf : ∀ d d', w path = some d → f d = some d' →
      (∀ name s, d' name = some (.made s) → objdir s = path ∧ Known s) ∧
        ∀ content, d' stampName = some (.stamp content) →
          content = [] ∨ ∃ v, v ≠ [] ∧ '\n' ∉ v ∧ content = v ++ ['\n'] ∧ OfVersion Stray v d') :
    Sound Known Stray (KernelDir.inDir path f w) := by
  have hat : ∀ d', KernelDir.inDir path f w path = some d' →
      ∃ d, w path = some d ∧ f d = some d' := by
    intro d' hd'
    rw [inDir_self] at hd'
    exact Option.bind_eq_some_iff.mp hd'
  constructor
  · intro p d' name s hp hname
    by_cases heq : p = path
    · subst heq
      obtain ⟨d, hd, hfd⟩ := hat d' hp
      exact (hf d d' hd hfd).1 name s hname
    · rw [inDir_other f w heq] at hp
      exact h.own p d' name s hp hname
  · intro p d' content hp hcontent
    by_cases heq : p = path
    · subst heq
      obtain ⟨d, hd, hfd⟩ := hat d' hp
      exact (hf d d' hd hfd).2 content hcontent
    · rw [inDir_other f w heq] at hp
      exact h.stamped p d' content hp hcontent

theorem remove (h : Sound Known Stray w) (path name : Text) : Sound Known Stray (KernelDir.remove path name w) := by
  have hsub : ∀ {d : Dir} {n file}, setFile name none d n = some file → d n = some file := by
    intro d n file hn
    simp only [setFile] at hn
    split at hn
    · cases hn
    · exact hn
  apply h.inDir
  rintro d _ hd ⟨⟩
  constructor
  · intro n s hn
    exact h.own path d n s hd (hsub hn)
  · intro content hcontent
    obtain rfl | ⟨v, hne, hbreak, rfl, hv⟩ := h.stamped path d content hd (hsub hcontent)
    · exact .inl rfl
    · exact .inr ⟨v, hne, hbreak, rfl, fun n s hn => hv n s (hsub hn)⟩

theorem rmdir (h : Sound Known Stray w) (path : Text) : Sound Known Stray (KernelDir.rmdir path w) := by
  apply h.inDir
  rintro d d' hd ⟨⟩

theorem mkdir (h : Sound Known Stray w) (path : Text) : Sound Known Stray (KernelDir.mkdir path w) := by
  have hold : ∀ {p d}, KernelDir.mkdir path w p = some d → w p = some d ∨ ∀ name, d name = none := by
    intro p d hp
    simp only [KernelDir.mkdir] at hp
    split at hp
    · rename_i heq
      subst heq
      cases hw : w p with
      | none =>
        rw [hw] at hp
        cases hp
        exact .inr fun _ => rfl
      | some d' =>
        rw [hw] at hp
        cases hp
        exact .inl rfl
    · exact .inl hp
  constructor
  · intro p d name s hp hname
    obtain hw | hnone := hold hp
    · exact h.own p d name s hw hname
    · rw [hnone] at hname
      cases hname
  · intro p d content hp hcontent
    obtain hw | hnone := hold hp
    · exact h.stamped p d content hw hcontent
    · rw [hnone] at hcontent
      cases hcontent

/-- A file is made where everything is of its version, or nothing is stamped; or it is stray. -/
theorem write_made (h : Sound Known Stray w) {s : Setting} {name : Text} (hs : Known s)
    (hname : name ≠ stampName)
    (hguard : Stray s ∨ ∀ d content, w (objdir s) = some d → d stampName = some (.stamp content) →
      content = [] ∨ content = stampText s) :
    Sound Known Stray (write (objdir s) name (.made s) w) := by
  apply h.inDir
  rintro d _ hd ⟨⟩
  constructor
  · intro n t hn
    simp only [setFile] at hn
    split at hn
    · cases hn
      exact ⟨rfl, hs⟩
    · exact h.own _ d n t hd hn
  · intro content hcontent
    simp only [setFile, if_neg (Ne.symm hname)] at hcontent
    obtain rfl | ⟨v, hne, hv, rfl, hof⟩ := h.stamped _ d content hd hcontent
    · exact .inl rfl
    refine .inr ⟨v, hne, hv, rfl, fun n t hn => ?_⟩
    simp only [setFile] at hn
    split at hn
    · cases hn
      obtain hstray | hguard := hguard
      · exact .inr hstray
      obtain h | h := hguard d _ hd hcontent
      · exact absurd h (List.append_ne_nil_of_right_ne_nil v (List.cons_ne_nil _ _))
      · exact .inl (List.append_cancel_right h).symm
    · exact hof n t hn

/-- The stamp is written where everything is of its version. -/
theorem write_stamp (h : Sound Known Stray w) {path content : Text}
    (hcontent : content = [] ∨ ∃ v, v ≠ [] ∧ '\n' ∉ v ∧ content = v ++ ['\n'] ∧
      ∀ d, w path = some d → OfVersion Stray v d) :
    Sound Known Stray (write path stampName (.stamp content) w) := by
  have hmade : ∀ {d : Dir} {n s},
      setFile stampName (some (.stamp content)) d n = some (.made s) → d n = some (.made s) := by
    intro d n s hn
    simp only [setFile] at hn
    split at hn
    · cases hn
    · exact hn
  apply h.inDir
  rintro d _ hd ⟨⟩
  constructor
  · intro n s hn
    exact h.own path d n s hd (hmade hn)
  · intro c hc
    simp only [setFile, if_true] at hc
    cases hc
    obtain rfl | ⟨v, hne, hbreak, rfl, hv⟩ := hcontent
    · exact .inl rfl
    · exact .inr ⟨v, hne, hbreak, rfl, fun n s hn => hv d hd n s (hmade hn)⟩

end Sound

/-! ## Runs -/

def AllOf (path v : Text) (w : World) : Prop := ∀ d, w path = some d → OfVersion Stray v d

variable {Known Stray : Setting → Prop}

theorem AllOf.mkdir {path v : Text} {w : World} (h : AllOf Stray path v w) :
    AllOf Stray path v (KernelDir.mkdir path w) := by
  intro d hd name s hname
  simp only [KernelDir.mkdir, if_true] at hd
  cases hw : w path with
  | none =>
    rw [hw] at hd
    cases hd
    cases hname
  | some d' =>
    rw [hw] at hd
    cases hd
    exact h d' hw name s hname

theorem AllOf.write {path v name : Text} {file : File} {w : World} (h : AllOf Stray path v w)
    (hfile : ∀ s, file = .made s → s.version = v) :
    AllOf Stray path v (KernelDir.write path name file w) := by
  intro d' hd' n s hn
  rw [KernelDir.write, inDir_self] at hd'
  obtain ⟨d, hd, hset⟩ := Option.bind_eq_some_iff.mp hd'
  cases hset
  simp only [setFile] at hn
  split at hn
  · cases hn
    exact .inl (hfile s rfl)
  · exact h d hd n s hn

/-- What `make` writes is written. -/
theorem safe_build (r : Run) {w : World} (h : Sound Known Stray w) (hr : Known r.setting)
    (hguard : Stray r.setting ∨ ∀ d content, w (objdir r.setting) = some d →
      d stampName = some (.stamp content) → content = [] ∨ content = stampText r.setting) :
    Safe (fun w => Sound Known Stray w ∧ (Stray r.setting ∨ ∀ d content,
      w (objdir r.setting) = some d → d stampName = some (.stamp content) →
        content = [] ∨ content = stampText r.setting))
      (build r) w := by
  refine safe_acts ⟨h, hguard⟩ ?_ fun s hs => safe_done hs
  intro f hf w hw
  obtain ⟨name, hbuilt, rfl⟩ := List.mem_map.mp hf
  have hname : name ≠ stampName := by
    rintro rfl
    exact r.foreign hbuilt
  refine ⟨hw.1.write_made hr hname hw.2, hw.2.imp_right fun hstamp => ?_⟩
  intro d' content hd' hcontent
  rw [write, inDir_self] at hd'
  obtain ⟨d, hd, hset⟩ := Option.bind_eq_some_iff.mp hd'
  cases hset
  simp only [setFile, if_neg (Ne.symm hname)] at hcontent
  exact hstamp d content hd hcontent

/-- Behind the check of the stamp. -/
theorem safe_stamped (r : Run) {w : World} (h : Sound Known Stray w) (hr : Known r.setting)
    (hall : AllOf Stray (objdir r.setting) r.setting.version w) :
    Safe (Sound Known Stray) (acts [mkdir (objdir r.setting), write (objdir r.setting) stampName (.stamp []),
      write (objdir r.setting) stampName (.stamp (stampText r.setting))] (build r)) w := by
  have hopen : Sound Known Stray (write (objdir r.setting) stampName (.stamp [])
      (mkdir (objdir r.setting) w)) := (h.mkdir _).write_stamp (.inl rfl)
  have hall' : AllOf Stray (objdir r.setting) r.setting.version (write (objdir r.setting) stampName
      (.stamp []) (mkdir (objdir r.setting) w)) := hall.mkdir.write (by rintro s ⟨⟩)
  have hdone := hopen.write_stamp (.inr ⟨r.setting.version, r.version, r.oneLine, rfl, hall'⟩)
  apply safe_cons h
  apply safe_cons (h.mkdir _)
  apply safe_cons hopen
  refine (safe_build r hdone hr (.inr ?_)).mono fun _ hs => hs.1
  intro d' content hd' hcontent
  rw [write, inDir_self] at hd'
  obtain ⟨d, hd, hset⟩ := Option.bind_eq_some_iff.mp hd'
  cases hset
  simp only [setFile, if_true] at hcontent
  cases hcontent
  exact .inr rfl

theorem not_stale {s : Setting} {w : World} (h : stale s w = false) {d : Dir}
    (hd : w (objdir s) = some d) :
    ∃ content, d stampName = some (.stamp content) ∧ substituted content = s.version := by
  simp only [stale, hd] at h
  split at h
  · rename_i content hcontent
    exact ⟨content, hcontent, by simpa using h⟩
  · cases h

theorem safe_main (r : Run) {w : World} (h : Sound Known Stray w) (hr : Known r.setting)
    (hguard : Stray r.setting ∨ r.Guarded w) : Safe (Sound Known Stray) (main r) w := by
  unfold main
  cases ht : r.target with
  | configureKernel =>
    apply safe_ask
    cases hstale : stale r.setting w with
    | false =>
      -- a directory that is kept has the stamp of this version
      refine safe_stamped r h hr fun d hd => ?_
      obtain ⟨content, hcontent, hversion⟩ := not_stale hstale hd
      obtain rfl | ⟨v, -, hbreak, rfl, hof⟩ := h.stamped _ d content hd hcontent
      · exact absurd hversion.symm r.version
      · rw [substituted_stamp hbreak] at hversion
        rwa [← hversion]
    | true =>
      rw [if_pos rfl, acts, List.foldr_append]
      refine safe_acts h ?_ fun w h => ?_
      · intro f hf w hw
        obtain ⟨name, -, rfl⟩ := List.mem_map.mp hf
        exact hw.remove _ name
      · refine safe_act h (safe_stamped r (h.rmdir _) hr fun d hd => ?_)
        rw [rmdir, inDir_self] at hd
        obtain ⟨d', -, hnone⟩ := Option.bind_eq_some_iff.mp hd
        cases hnone
  | makeInitramfsTinyShell =>
    refine safe_act h ((safe_build r (h.mkdir _) hr ?_).mono fun _ hs => hs.1)
    refine hguard.imp_right fun hguard d content hd hcontent => ?_
    simp only [mkdir, if_true] at hd
    cases hw : w (objdir r.setting) with
    | none =>
      rw [hw] at hd
      cases hd
      cases hcontent
    | some d' =>
      rw [hw] at hd
      cases hd
      exact hguard (by rw [ht]; decide) _ content hw hcontent
  | installInitramfs =>
    have hstamp := hguard.imp_right fun h : r.Guarded w => h (by rw [ht]; decide)
    exact (safe_build r h hr hstamp).mono fun _ hs => hs.1

def World.empty : World := fun _ => none

theorem sound_empty : Sound Known Stray World.empty where
  own _ _ _ _ h := by cases h
  stamped _ _ _ h := by cases h

/-- The setting of a run that built where another version was stamped. -/
def StrayOf (w : World) (runs : List (Run × Nat)) (s : Setting) : Prop :=
  ∃ before r after, runs = before ++ r :: after ∧ r.1.setting = s ∧
    ¬ r.1.Guarded (history main w before)

theorem sound_history {runs : List (Run × Nat)} {w : World} (h : Sound Known Stray w)
    (hknown : ∀ r ∈ runs, Known r.1.setting) (hstray : ∀ s, StrayOf w runs s → Stray s) :
    Sound Known Stray (history main w runs) := by
  induction runs generalizing w with
  | nil => exact h
  | cons r runs ih =>
    obtain ⟨hr, hrest⟩ := List.forall_mem_cons.mp hknown
    have hguard : Stray r.1.setting ∨ r.1.Guarded w := by
      by_cases hguard : r.1.Guarded w
      · exact .inr hguard
      · exact .inl (hstray _ ⟨[], r, runs, rfl, rfl, hguard⟩)
    apply ih (safe_main r.1 h hr hguard r.2) hrest
    rintro s ⟨before, r', after, rfl, hs, hnot⟩
    exact hstray s ⟨r :: before, r', after, rfl, hs, hnot⟩

/-- A run to the end leaves its stamp. -/
theorem run_stamp (r : Run) (hr : r.target = .configureKernel) (w : World) :
    ∃ d, (run (main r) w).2 (objdir r.setting) = some d ∧
      d stampName = some (.stamp (stampText r.setting)) := by
  have hbuild : ∀ w : World, (∃ d, w (objdir r.setting) = some d ∧
      d stampName = some (.stamp (stampText r.setting))) →
      ∃ d, (run (build r) w).2 (objdir r.setting) = some d ∧
        d stampName = some (.stamp (stampText r.setting)) := by
    intro w hw
    rw [build, run_acts]
    refine applyAll_keeps (P := fun w : World => ∃ d, w (objdir r.setting) = some d ∧
      d stampName = some (.stamp (stampText r.setting))) ?_ hw
    rintro f hf w ⟨d, hd, hstamp⟩
    obtain ⟨name, hbuilt, rfl⟩ := List.mem_map.mp hf
    have hname : stampName ≠ name := by
      rintro rfl
      exact r.foreign hbuilt
    refine ⟨setFile name (some (.made r.setting)) d, ?_, ?_⟩
    · rw [write, inDir_self, hd]
      rfl
    · exact (if_neg hname).trans hstamp
  rw [main, hr]
  simp only [run, run_acts]
  apply hbuild
  simp only [applyAll_cons, applyAll_nil]
  generalize applyAll _ w = cleared
  obtain ⟨d, hd⟩ : ∃ d, mkdir (objdir r.setting) cleared (objdir r.setting) = some d :=
    ⟨_, if_pos rfl⟩
  refine ⟨setFile stampName (some (.stamp (stampText r.setting)))
    (setFile stampName (some (.stamp [])) d), ?_, if_pos rfl⟩
  rw [write, inDir_self, write, inDir_self, hd]
  rfl

/-! ## Variants -/

/-- A distribution preset whose directory is not one of Buildroot's. -/
def Setting.Plain (s : Setting) : Prop :=
  s.variant = .distro → s.preset ≠ text "buildroot32" ∧ s.preset ≠ text "buildroot64"

/-- One kernel variant: for one preset, or for one width. -/
def SameKernel (s t : Setting) : Prop :=
  s.variant = t.variant ∧ if s.variant = .distro then s.preset = t.preset else s.bits = t.bits

theorem bitsText_inj {a b : Word} (h : bitsText a = bitsText b) : a = b := by
  cases a <;> cases b <;> first | rfl | exact absurd h (by decide)

theorem distro_ne_buildroot {s : Setting} (hs : s.Plain) (hd : s.variant = .distro) (w : Word) :
    s.preset ++ text "-kernel" ≠ text "buildroot" ++ bitsText w ++ text "-kernel" := by
  intro h
  have hpreset := List.append_cancel_right h
  cases w with
  | rv32 => exact (hs hd).1 hpreset
  | rv64 => exact (hs hd).2 hpreset

theorem minimal_ne_kernel (front : Text) (w : Word) :
    text "build" ++ bitsText w ≠ front ++ text "-kernel" := by
  intro h
  have := congrArg List.getLast? h
  rw [List.getLast?_append, List.getLast?_append] at this
  cases w with
  | rv32 => exact absurd (show some '2' = some 'l' from this) (by decide)
  | rv64 => exact absurd (show some '4' = some 'l' from this) (by decide)

/-- Plain settings share a directory only when they build one kernel. -/
theorem sameKernel_of_objdir {s t : Setting} (hs : s.Plain) (ht : t.Plain)
    (h : objdir s = objdir t) : SameKernel s t := by
  simp only [objdir] at h
  cases hsv : s.variant <;> cases htv : t.variant <;> simp only [hsv, htv] at h
  case minimal.minimal =>
    exact ⟨by rw [hsv, htv], by
      rw [hsv, if_neg (by decide)]
      exact bitsText_inj (List.append_cancel_left h)⟩
  case minimal.buildroot => exact absurd h (minimal_ne_kernel _ _)
  case minimal.distro => exact absurd h (minimal_ne_kernel _ _)
  case buildroot.minimal => exact absurd h.symm (minimal_ne_kernel _ _)
  case buildroot.buildroot =>
    exact ⟨by rw [hsv, htv], by
      rw [hsv, if_neg (by decide)]
      exact bitsText_inj (List.append_cancel_left (List.append_cancel_right h))⟩
  case buildroot.distro => exact absurd h.symm (distro_ne_buildroot ht htv _)
  case distro.minimal => exact absurd h.symm (minimal_ne_kernel _ _)
  case distro.buildroot => exact absurd h (distro_ne_buildroot hs hsv _)
  case distro.distro =>
    exact ⟨by rw [hsv, htv], by
      rw [hsv, if_pos rfl]
      exact List.append_cancel_right h⟩

/-- After any history `configure_kernel` and the build behind it leave a directory where
everything was made of one kernel variant, and from one version but for what a run built
that met the stamp of another version and did not look. -/
theorem kernel_dir_unmixed (runs : List (Run × Nat))
    (hplain : ∀ r ∈ runs, r.1.setting.Plain) (r : Run) (hr : r.target = .configureKernel)
    (hrplain : r.setting.Plain) :
    ∃ d, (run (main r) (history main World.empty runs)).2 (objdir r.setting) = some d ∧
      ∀ name s, d name = some (.made s) → SameKernel s r.setting ∧
        (s.version = r.setting.version ∨ StrayOf World.empty runs s) := by
  have hsound : Sound Setting.Plain (StrayOf World.empty runs) (history main World.empty runs) :=
    sound_history sound_empty hplain fun _ h => h
  obtain ⟨n, hn⟩ := exists_stopped_eq_run (main r) (history main World.empty runs)
  have hlast := safe_main r hsound hrplain (.inr fun h => absurd hr h) n
  rw [hn] at hlast
  obtain ⟨d, hd, hstamp⟩ := run_stamp r hr (history main World.empty runs)
  refine ⟨d, hd, fun name s hname => ?_⟩
  obtain ⟨hdir, hs⟩ := hlast.own _ d name s hd hname
  obtain h | ⟨v, -, -, h, hof⟩ := hlast.stamped _ d _ hd hstamp
  · exact absurd h (List.append_ne_nil_of_right_ne_nil _ (List.cons_ne_nil _ _))
  · rw [List.append_cancel_right h]
    exact ⟨sameKernel_of_objdir hs hrplain hdir, hof name s hname⟩

/-- Two versions of one kernel, the first build cut off. -/
def versionRun (version : String) (target : Target) (hne : text version ≠ [])
    (hline : '\n' ∉ text version) : Run where
  target := target
  setting := ⟨.minimal, .rv32, text "qemu-rv32", text version⟩
  removed := [text "vmlinux", stampName]
  built := [text "vmlinux", text "Image"]
  version := hne
  oneLine := hline
  foreign := by decide

def olderRun : Run := versionRun "6.18.50" .configureKernel (by decide) (by decide)

def newerRun : Run := versionRun "6.18.51" .configureKernel (by decide) (by decide)

theorem kernel_dir_unmixed_upgrade :
    ∃ d, (run (main newerRun) (history main World.empty [(olderRun, 5), (newerRun, 1)])).2
        (objdir newerRun.setting) = some d ∧
      ∀ name s, d name = some (.made s) → SameKernel s newerRun.setting ∧
        (s.version = newerRun.setting.version ∨
          StrayOf World.empty [(olderRun, 5), (newerRun, 1)] s) :=
  kernel_dir_unmixed [(olderRun, 5), (newerRun, 1)]
    (by
      rintro r (_ | ⟨_, _ | ⟨_, ⟨⟩⟩⟩) ⟨⟩)
    newerRun rfl (fun h => by cases h)

end LinuxBuild.KernelDir
