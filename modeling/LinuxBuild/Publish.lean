import Mathlib.Data.List.Induction
import LinuxBuild.Packages
import LinuxBuild.Release

/-!
# Publishing a package, and `build-release.py --resume`

A packager moves its directory and its archive into the release directory one
after the other. The resume test reads the directory.
-/

namespace LinuxBuild.Publish

open Crash Repository Packages

/-! ## The release directory -/

/-- The content of a package directory, or of an archive of one. -/
structure Content where
  files : List (Text × Bytes)
  manifest : Option Manifest

inductive Entry where
  | dir (content : Content)
  | archive (content : Content)

/-- `stage` and `archive` lie in the temporary directory of the last packager. -/
structure Dist where
  entries : Text → Option Entry
  superseded : List (Text × Entry)
  stage : Content
  archive : Option Content

def archiveName (name : Text) : Text := name ++ text ".tar.gz"

def prior : Text := text ".superseded"

namespace Dist

def empty : Dist := ⟨fun _ => none, [], ⟨[], none⟩, none⟩

def setEntry (name : Text) (entry : Option Entry) (d : Dist) : Dist :=
  { d with entries := fun n => if n = name then entry else d.entries n }

def openStage (d : Dist) : Dist := { d with stage := ⟨[], none⟩, archive := none }

def copy (file : Text × Bytes) (d : Dist) : Dist :=
  { d with stage := { d.stage with files := d.stage.files ++ [file] } }

def writeManifest (m : Manifest) (d : Dist) : Dist :=
  { d with stage := { d.stage with manifest := some m } }

def writeArchive (d : Dist) : Dist := { d with archive := some d.stage }

/-- `prior.mkdir(exist_ok=True)`. -/
def makePrior (d : Dist) : Dist :=
  match d.entries prior with
  | some _ => d
  | none => d.setEntry prior (some (.dir ⟨[], none⟩))

def supersede (name : Text) (d : Dist) : Dist :=
  { d.setEntry name none with
    superseded := (d.entries name).toList.map (name, ·) ++ d.superseded }

def moveStage (name : Text) (d : Dist) : Dist := d.setEntry name (some (.dir d.stage))

def replaceArchive (name : Text) (d : Dist) : Dist :=
  d.setEntry (archiveName name) (d.archive.map .archive)

/-- The manifest of a package directory. -/
def manifest? (d : Dist) (name : Text) : Option Manifest :=
  match d.entries name with
  | some (.dir content) => content.manifest
  | _ => none

end Dist

/-! ## The last part of both packagers -/

def stagingActs (p : Staged) : List (Dist → Dist) :=
  [Dist.openStage] ++ p.files.map Dist.copy ++ [Dist.writeManifest p.manifest, Dist.writeArchive]

/-- From the move of the directory on. An archive does not replace a directory. -/
def settle (name : Text) : Prog Dist Refusal :=
  .act (Dist.moveStage name) <|
    .ask fun d =>
      match d.entries (archiveName name) with
      | some (.dir _) => .raise .raised
      | _ => acts [Dist.replaceArchive name, Dist.openStage] .done

/-- What is there is moved aside; a directory cannot be moved into itself. -/
def publish (p : Staged) : Prog Dist Refusal :=
  acts (stagingActs p) <|
    .ask fun d =>
      match d.entries p.name with
      | none => settle p.name
      | some _ =>
        .act Dist.makePrior <|
          if p.name = prior then .raise .raised
          else .act (Dist.supersede p.name) (settle p.name)

variable (readers : Readers) (sha : Digest Bytes)

/-- A packager that is run in a state of the repository, and stopped after some
of its acts. -/
structure Run where
  surroundings : Surroundings
  job : Job
  stop : Nat

def Run.package (r : Run) : Except Refusal Staged := r.job.package readers sha r.surroundings

def Run.program (r : Run) : Prog Dist Refusal :=
  match r.package readers sha with
  | .error e => .raise e
  | .ok p => publish p

def step (d : Dist) (r : Run) : Dist := stopped r.stop (r.program readers sha) d

def after (runs : List Run) : Dist := runs.foldl (step readers sha) .empty

/-! ## `build-release.py --resume` -/

/-- Every recorded input is there, with the recorded hash. -/
def current (now : Tree) (inputs : InputMap) : Bool :=
  inputs.all fun row => (now.file? row.1).map sha.hash == some row.2

/-- The hash of the archive that is recorded with it needs a file. -/
def reuses (now : Tree) (name : Text) (d : Dist) : Bool :=
  match d.entries (archiveName name), d.manifest? name with
  | some (.archive _), some m => current sha now m.buildInputs
  | _, _ => false

/-! ## Names -/

theorem archiveName_ne (name : Text) : archiveName name ≠ name := by
  intro h
  have := congrArg List.length h
  simp [archiveName, text] at this

theorem archiveName_inj {a b : Text} (h : archiveName a = archiveName b) : a = b :=
  List.append_cancel_right h

theorem archiveName_ne_prior (name : Text) : archiveName name ≠ prior := by
  intro h
  have := congrArg List.getLast? h
  simp [archiveName, prior, text] at this

@[simp] theorem entries_setEntry (d : Dist) (name : Text) (entry : Option Entry) (n : Text) :
    (d.setEntry name entry).entries n = if n = name then entry else d.entries n := rfl

/-! ## Directories and their archives -/

/-- An archive beside a package directory has the manifest of the directory. -/
def Paired (d : Dist) (name : Text) : Prop :=
  ∀ content archived, d.entries name = some (.dir content) →
    d.entries (archiveName name) = some (.archive archived) → content.manifest.isSome = true →
    archived.manifest = content.manifest

def Consistent (d : Dist) : Prop := ∀ name, Paired d name

theorem Consistent.of_entries {d d' : Dist} (h : Consistent d) (heq : d'.entries = d.entries) :
    Consistent d' := by
  intro name
  unfold Paired
  rw [heq]
  exact h name

theorem consistent_remove {d : Dist} (h : Consistent d) (name : Text) :
    Consistent (d.setEntry name none) := by
  intro other content archived hdir harchive
  simp only [entries_setEntry] at hdir harchive
  split at hdir
  · cases hdir
  split at harchive
  · cases harchive
  exact h other content archived hdir harchive

theorem consistent_addDir {d : Dist} (h : Consistent d) {name : Text} {content : Content}
    (hpair : ∀ archived, d.entries (archiveName name) = some (.archive archived) →
      content.manifest.isSome = true → archived.manifest = content.manifest) :
    Consistent (d.setEntry name (some (.dir content))) := by
  intro other content' archived hdir harchive
  simp only [entries_setEntry] at hdir harchive
  split at harchive
  · cases harchive
  split at hdir
  · rename_i heq
    cases hdir
    exact hpair archived (heq ▸ harchive)
  · exact h other content' archived hdir harchive

/-- An archive has no other directory than the one of its name. -/
theorem consistent_addArchive {d : Dist} {name : Text} {archived : Content}
    (h : ∀ other, other ≠ name → Paired d other)
    (hpair : ∀ content, d.entries name = some (.dir content) → archived.manifest = content.manifest) :
    Consistent (d.setEntry (archiveName name) (some (.archive archived))) := by
  intro other content archived' hdir harchive
  simp only [entries_setEntry] at hdir harchive
  split at hdir
  · cases hdir
  by_cases hother : other = name
  · subst hother
    rw [if_pos rfl] at harchive
    cases harchive
    exact fun _ => hpair content hdir
  · rw [if_neg fun heq => hother (archiveName_inj heq)] at harchive
    exact h other hother content archived' hdir harchive

theorem consistent_makePrior {d : Dist} (h : Consistent d) : Consistent d.makePrior := by
  unfold Dist.makePrior
  split
  · exact h
  · apply consistent_addDir h
    intro archived _ hsome
    cases hsome

/-! ## Where a packager is stopped -/

def content (p : Staged) : Content := ⟨p.files, some p.manifest⟩

/-- The package is staged: nothing in the release directory has changed. -/
structure StagedIn (p : Staged) (d e : Dist) : Prop where
  entries : e.entries = d.entries
  stage : e.stage = content p
  archive : e.archive = some (content p)

theorem applyAll_copy (files : List (Text × Bytes)) (d : Dist) :
    applyAll (files.map Dist.copy) d =
      { d with stage := { d.stage with files := d.stage.files ++ files } } := by
  induction files generalizing d with
  | nil => simp
  | cons file files ih => simp [ih, Dist.copy]

theorem applyAll_staging (p : Staged) (d : Dist) : StagedIn p d (applyAll (stagingActs p) d) := by
  have happly : applyAll (stagingActs p) d =
      { d with stage := content p, archive := some (content p) } := by
    simp only [stagingActs, applyAll_append, applyAll_copy, applyAll_cons, applyAll_nil,
      Dist.openStage, Dist.writeManifest, Dist.writeArchive, List.nil_append, content]
  rw [happly]
  exact ⟨rfl, rfl, rfl⟩

theorem entries_staging (p : Staged) (d : Dist) (n : Nat) :
    (applyAll ((stagingActs p).take n) d).entries = d.entries := by
  have hkeeps : ∀ f ∈ (stagingActs p).take n, ∀ s : Dist, s.entries = d.entries →
      (f s).entries = d.entries := by
    intro f hf s hs
    have hmem := List.mem_of_mem_take hf
    simp only [stagingActs, List.mem_append, List.mem_cons, List.not_mem_nil, or_false,
      List.mem_map] at hmem
    obtain (rfl | ⟨file, _, rfl⟩) | rfl | rfl := hmem <;> exact hs
  exact applyAll_keeps hkeeps rfl

theorem StagedIn.makePrior {p : Staged} {d e : Dist} (h : StagedIn p d e) :
    StagedIn p d.makePrior e.makePrior := by
  unfold Dist.makePrior
  rw [h.entries]
  split
  · exact h
  · refine ⟨?_, h.stage, h.archive⟩
    funext n
    simp only [entries_setEntry, h.entries]

theorem StagedIn.supersede {p : Staged} {d e : Dist} (h : StagedIn p d e) (name : Text) :
    StagedIn p (d.supersede name) (e.supersede name) := by
  refine ⟨?_, h.stage, h.archive⟩
  funext n
  simp only [Dist.supersede, entries_setEntry, h.entries]

/-- The release directory with the name free. -/
def cleared (p : Staged) (d : Dist) : Dist :=
  match d.entries p.name with
  | none => d
  | some _ => d.makePrior.supersede p.name

theorem StagedIn.cleared_none {p : Staged} {d e : Dist} (h : StagedIn p d e)
    (hnone : d.entries p.name = none) : StagedIn p (cleared p d) e := by
  simp only [cleared, hnone]
  exact h

theorem StagedIn.cleared_some {p : Staged} {d e : Dist} {entry : Entry} (h : StagedIn p d e)
    (hentry : d.entries p.name = some entry) :
    StagedIn p (cleared p d) (e.makePrior.supersede p.name) := by
  simp only [cleared, hentry]
  exact h.makePrior.supersede p.name

def moved (p : Staged) (d : Dist) : Dist :=
  (cleared p d).setEntry p.name (some (.dir (content p)))

def replaced (p : Staged) (d : Dist) : Dist :=
  (moved p d).setEntry (archiveName p.name) (some (.archive (content p)))

/-- After how many acts the directory has been moved in. -/
def movedAt (p : Staged) (d : Dist) : Option Nat :=
  match d.entries p.name with
  | none => some ((stagingActs p).length + 1)
  | some _ => if p.name = prior then none else some ((stagingActs p).length + 3)

/-- Everything a packager that is stopped can leave in the release directory.
It stays at the move when there is a directory in the place of its archive. -/
inductive Left (p : Staged) (d : Dist) (n : Nat) (s : Dist) : Prop where
  | untouched (h : s.entries = d.entries)
  | prior (h : s.entries = d.makePrior.entries)
  | cleared (h : s.entries = (cleared p d).entries)
  | moved (h : s.entries = (moved p d).entries)
      (hwhy : movedAt p d = some n ∨ ∃ c, d.entries (archiveName p.name) = some (.dir c))
  | replaced (h : s.entries = (replaced p d).entries)

/-- Neither clearing the name nor moving the directory in touches the archive. -/
theorem archive_moved (p : Staged) (d : Dist) :
    (moved p d).entries (archiveName p.name) = d.entries (archiveName p.name) := by
  have hne := archiveName_ne p.name
  have hne' := archiveName_ne_prior p.name
  rw [moved, entries_setEntry, if_neg hne]
  unfold cleared
  split
  · rfl
  · simp only [Dist.supersede, entries_setEntry, if_neg hne]
    unfold Dist.makePrior
    split
    · rfl
    · rw [entries_setEntry, if_neg hne']

theorem StagedIn.moveStage {p : Staged} {d e : Dist} (h : StagedIn p (cleared p d) e) :
    StagedIn p (moved p d) (e.moveStage p.name) := by
  refine ⟨?_, h.stage, h.archive⟩
  funext name
  simp only [Dist.moveStage, moved, entries_setEntry, h.stage, h.entries]

/-- The move and the replacement of the archive, `n` acts of them. -/
theorem settle_left {p : Staged} {d e : Dist} (h : StagedIn p (cleared p d) e) (n m : Nat)
    (hn : n = 1 → movedAt p d = some m) : Left p d m (stopped n (settle p.name) e) := by
  have hmoved := h.moveStage.entries
  cases n with
  | zero => exact .cleared (by rw [stopped_zero, h.entries])
  | succ n =>
    rw [settle, stopped, stopped_ask, hmoved, archive_moved]
    split
    · rename_i c hdir
      rw [stopped_raise]
      exact .moved hmoved (.inr ⟨c, hdir⟩)
    · cases n with
      | zero =>
        rw [stopped_zero]
        exact .moved hmoved (.inl (hn rfl))
      | succ n =>
        have hreplaced : ((e.moveStage p.name).replaceArchive p.name).entries =
            (replaced p d).entries := by
          funext name
          simp only [Dist.replaceArchive, h.moveStage.archive, replaced, entries_setEntry, hmoved]
          rfl
        apply Left.replaced
        cases n with
        | zero => exact hreplaced
        | succ n => cases n <;> exact hreplaced

theorem publish_left (p : Staged) (d : Dist) (n : Nat) : Left p d n (stopped n (publish p) d) := by
  have hstaged := applyAll_staging p d
  rw [publish, stopped_acts]
  split
  · exact .untouched (entries_staging p d n)
  rename_i hlong
  rw [stopped_ask, hstaged.entries]
  generalize hk : n - (stagingActs p).length = k
  generalize applyAll (stagingActs p) d = e at hstaged
  split
  · rename_i hnone
    apply settle_left (hstaged.cleared_none hnone)
    rintro rfl
    simp only [movedAt, hnone]
    congr 1
    omega
  · rename_i entry hentry
    cases k with
    | zero => omega
    | succ k =>
      rw [stopped]
      split
      · rw [stopped_raise]
        exact .prior hstaged.makePrior.entries
      rename_i hname
      cases k with
      | zero => exact .prior hstaged.makePrior.entries
      | succ k =>
        rw [stopped]
        apply settle_left (hstaged.cleared_some hentry)
        rintro rfl
        simp only [movedAt, hentry, if_neg hname]
        congr 1
        omega

theorem settle_one {p : Staged} {d e : Dist} (h : StagedIn p (cleared p d) e) :
    (stopped 1 (settle p.name) e).entries = (moved p d).entries := by
  rw [settle, stopped, stopped_zero, h.moveStage.entries]

/-- Stopped right after the move. -/
theorem publish_movedAt {p : Staged} {d : Dist} {n : Nat} (h : movedAt p d = some n) :
    (stopped n (publish p) d).entries = (moved p d).entries := by
  have hstaged := applyAll_staging p d
  unfold movedAt at h
  rw [publish, stopped_acts]
  split at h
  · rename_i hnone
    obtain rfl := Option.some.inj h
    rw [if_neg (by omega), stopped_ask, hstaged.entries, hnone, Nat.add_sub_cancel_left]
    exact settle_one (hstaged.cleared_none hnone)
  · rename_i entry hentry
    split at h
    · cases h
    rename_i hname
    obtain rfl := Option.some.inj h
    rw [if_neg (by omega), stopped_ask, hstaged.entries, hentry, Nat.add_sub_cancel_left]
    simp only [stopped, if_neg hname]
    exact settle_one (hstaged.cleared_some hentry)

/-! ## What a run keeps -/

/-- The archive that is there when the directory has been moved in is the
package's own. -/
def OwnArchive (p : Staged) (d : Dist) : Prop :=
  ∀ archived, d.entries (archiveName p.name) = some (.archive archived) →
    archived.manifest = some p.manifest

theorem consistent_cleared {d : Dist} (h : Consistent d) (p : Staged) :
    Consistent (cleared p d) := by
  unfold cleared
  split
  · exact h
  · exact (consistent_remove (consistent_makePrior h) p.name).of_entries rfl

theorem left_consistent {p : Staged} {d s : Dist} {n : Nat} (hd : Consistent d)
    (hn : movedAt p d = some n → OwnArchive p d) (h : Left p d n s) : Consistent s := by
  have hcleared := consistent_cleared hd p
  cases h with
  | untouched h => exact hd.of_entries h
  | prior h => exact (consistent_makePrior hd).of_entries h
  | cleared h => exact hcleared.of_entries h
  | moved h hwhy =>
    apply Consistent.of_entries _ h
    apply consistent_addDir hcleared
    intro archived harchive _
    have hthere := archive_moved p d
    rw [moved, entries_setEntry, if_neg (archiveName_ne p.name), harchive] at hthere
    obtain hwhy | ⟨c, hdir⟩ := hwhy
    · exact hn hwhy archived hthere.symm
    · rw [hdir] at hthere
      cases hthere
  | replaced h =>
    apply Consistent.of_entries _ h
    apply consistent_addArchive
    · intro other hother c archived hdir harchive
      simp only [moved, entries_setEntry, if_neg hother] at hdir harchive
      split at harchive
      · cases harchive
      · exact hcleared other c archived hdir harchive
    · intro c hdir
      rw [moved, entries_setEntry, if_pos rfl] at hdir
      cases hdir
      rfl

/-- An archive that is there was there before or is the packager's own. -/
theorem left_archives {p : Staged} {d s : Dist} {n : Nat} (h : Left p d n s) {name : Text}
    {archived : Content} (harchive : s.entries name = some (.archive archived)) :
    archived = content p ∨ d.entries name = some (.archive archived) := by
  have hprior : d.makePrior.entries name = some (.archive archived) →
      d.entries name = some (.archive archived) := by
    unfold Dist.makePrior
    split
    · exact id
    · rw [entries_setEntry]
      split
      · exact fun heq => by cases heq
      · exact id
  have hcleared : (cleared p d).entries name = some (.archive archived) →
      d.entries name = some (.archive archived) := by
    unfold cleared
    split
    · exact id
    · simp only [Dist.supersede, entries_setEntry]
      split
      · exact fun heq => by cases heq
      · exact hprior
  have hmoved : (moved p d).entries name = some (.archive archived) →
      d.entries name = some (.archive archived) := by
    rw [moved, entries_setEntry]
    split
    · exact fun heq => by cases heq
    · exact hcleared
  cases h with
  | untouched h => exact .inr (h ▸ harchive)
  | prior h => exact .inr (hprior (h ▸ harchive))
  | cleared h => exact .inr (hcleared (h ▸ harchive))
  | moved h _ => exact .inr (hmoved (h ▸ harchive))
  | replaced h =>
    rw [h, replaced, entries_setEntry] at harchive
    split at harchive
    · cases harchive
      exact .inl rfl
    · exact .inr (hmoved harchive)

/-! ## Reuse over a history -/

variable (runs : List Run)

/-- An archive that is reused was made by one of the runs, with the manifest
whose inputs were compared. -/
def Honest (d : Dist) : Prop :=
  ∀ now name, reuses sha now name d = true →
    ∃ r ∈ runs, ∃ p, r.package readers sha = .ok p ∧
      d.entries (archiveName name) = some (.archive (content p)) ∧
      d.manifest? name = some p.manifest

/-- The packager is stopped when it has moved its directory in, and the archive
beside it has another manifest. -/
def Torn (r : Run) (d : Dist) : Prop :=
  ∃ p archived, r.package readers sha = .ok p ∧ movedAt p d = some r.stop ∧
    d.entries (archiveName p.name) = some (.archive archived) ∧
    archived.manifest ≠ some p.manifest

structure Sound (d : Dist) : Prop where
  consistent : Consistent d
  archives : ∀ name archived, d.entries name = some (.archive archived) →
    ∃ r ∈ runs, ∃ p, r.package readers sha = .ok p ∧ archived = content p

variable {readers sha runs}

theorem manifest?_dir {d : Dist} {name : Text} {m : Manifest} (h : d.manifest? name = some m) :
    ∃ c, d.entries name = some (.dir c) ∧ c.manifest = some m := by
  unfold Dist.manifest? at h
  split at h
  · rename_i c hdir
    exact ⟨c, hdir, h⟩
  · cases h

theorem Sound.honest {d : Dist} (h : Sound readers sha runs d) : Honest readers sha runs d := by
  intro now name hreuses
  unfold reuses at hreuses
  split at hreuses
  · rename_i archived m harchive hmanifest
    obtain ⟨r, hr, p, hp, rfl⟩ := h.archives _ _ harchive
    obtain ⟨c, hdir, hm⟩ := manifest?_dir hmanifest
    have hsame := h.consistent name c (content p) hdir harchive (by rw [hm]; rfl)
    refine ⟨r, hr, p, hp, harchive, ?_⟩
    rw [hmanifest, ← hm, ← hsame]
    rfl
  · cases hreuses

theorem sound_step {d : Dist} (h : Sound readers sha runs d) {r : Run}
    (hr : ¬ Torn readers sha r d) : Sound readers sha (runs ++ [r]) (step readers sha d r) := by
  have hold : ∀ name archived, d.entries name = some (.archive archived) →
      ∃ r' ∈ runs ++ [r], ∃ p, r'.package readers sha = .ok p ∧ archived = content p := by
    intro name archived harchive
    obtain ⟨r', hr', p, hp⟩ := h.archives name archived harchive
    exact ⟨r', List.mem_append_left _ hr', p, hp⟩
  unfold step Run.program
  cases hpackage : r.package readers sha with
  | error e =>
    rw [stopped_raise]
    exact ⟨h.consistent, hold⟩
  | ok p =>
    have hleft := publish_left p d r.stop
    refine ⟨left_consistent h.consistent ?_ hleft, ?_⟩
    · intro hmoved archived harchive
      apply Classical.byContradiction
      intro hne
      exact hr ⟨p, archived, hpackage, hmoved, harchive, hne⟩
    · intro name archived harchive
      obtain rfl | harchive := left_archives hleft harchive
      · exact ⟨r, List.mem_append_right _ List.mem_cons_self, p, hpackage, rfl⟩
      · exact hold name archived harchive

theorem after_append (front : List Run) (r : Run) :
    after readers sha (front ++ [r]) = step readers sha (after readers sha front) r := by
  simp [after]

theorem sound_after (h : ∀ front r back, runs = front ++ r :: back →
    ¬ Torn readers sha r (after readers sha front)) :
    Sound readers sha runs (after readers sha runs) := by
  induction runs using List.reverseRecOn with
  | nil =>
    constructor
    · intro name c archived hdir
      cases hdir
    · intro name archived harchive
      cases harchive
  | append_singleton front r ih =>
    rw [after_append]
    refine sound_step (ih fun front' r' back heq => ?_) (h front r [] rfl)
    exact h front' r' (back ++ [r]) (by rw [heq]; simp)

/-- The tree of a run still has the inputs the run records. -/
theorem current_package {r : Run} {p : Staged} (h : r.package readers sha = .ok p) :
    current sha r.surroundings.tree p.manifest.buildInputs = true := by
  obtain ⟨variant, hinputs⟩ := package_inputs h
  obtain ⟨files, _, hhashes⟩ := Option.bind_eq_some_iff.mp hinputs
  rw [current, List.all_eq_true]
  intro row hrow
  rw [beq_iff_eq]
  exact hashFiles_rows sha hhashes row hrow

/-- After such a stop the old archive is reused for the new inputs. -/
theorem torn_not_honest {d : Dist} {r : Run} (h : Torn readers sha r d) (runs : List Run) :
    ¬ Honest readers sha runs (step readers sha d r) := by
  obtain ⟨p, archived, hpackage, hmoved, harchive, hne⟩ := h
  have hentries : (step readers sha d r).entries = (moved p d).entries := by
    rw [step, Run.program, hpackage]
    exact publish_movedAt hmoved
  have hthere : (step readers sha d r).entries (archiveName p.name) = some (.archive archived) := by
    rw [hentries, archive_moved, harchive]
  have hmanifest : (step readers sha d r).manifest? p.name = some p.manifest := by
    rw [Dist.manifest?, hentries, moved, entries_setEntry, if_pos rfl]
    rfl
  intro honest
  have hreuses : reuses sha r.surroundings.tree p.name (step readers sha d r) = true := by
    rw [reuses, hthere, hmanifest]
    exact current_package hpackage
  obtain ⟨_, _, q, _, hq, hm⟩ := honest _ _ hreuses
  rw [hthere] at hq
  rw [hmanifest] at hm
  cases hq
  exact hne hm.symm

/-- An archive is reused for other inputs than it was built from exactly after a
packager that was stopped between the move of its directory and the replacement
of an older archive. -/
theorem reused_archives_honest_iff (readers : Readers) (sha : Digest Bytes) (runs : List Run) :
    (∀ front back, runs = front ++ back → Honest readers sha front (after readers sha front)) ↔
      ∀ front r back, runs = front ++ r :: back → ¬ Torn readers sha r (after readers sha front) := by
  constructor
  · intro h front r back heq htorn
    have honest := h (front ++ [r]) back (by rw [heq]; simp)
    rw [after_append] at honest
    exact torn_not_honest htorn _ honest
  · intro h front back heq
    apply Sound.honest
    apply sound_after
    intro front' r back' heq'
    exact h front' r (back' ++ back) (by rw [heq, heq']; simp)

/-! ## A packager stopped between the two -/

open Toml in
def tinyPreset : Value :=
  .table [(text "target", .table [(text "arch", .string (text "riscv32"))]),
    (text "kernel", .table [(text "version", .string (text "6.18.51")),
      (text "config", .table [(text "HZ", .integer 100)])]),
    (text "boot", .table [(text "memory", .integer 1024)])]

def tinyReaders : Readers where
  toml _ := some tinyPreset
  repr _ := []
  rootfsRecord _ := none
  diskRecord _ := none
  readme _ := []

/-- 24 bytes: a kernel that is loaded at the start of the firmware. -/
def tinyImage : Bytes := List.replicate 24 0

def tinyKernel : KernelDir where
  config := ascii ("CONFIG_HZ=100\nCONFIG_SERIAL_LITEUART=y\n" ++
    "CONFIG_SERIAL_LITEUART_CONSOLE=y\nCONFIG_MMU=y\n")
  image := tinyImage
  vmlinux := []
  release := ascii "6.18.51\n"
  sourceRecord := none

def tinyName : Text := text "linux-riscv-qemu-rv32-v6.18.51"

def tinyRun (tree : Tree) (stop : Nat) : Run where
  surroundings := ⟨tree, [], [], 0⟩
  job := .artifacts ⟨tinyName, tinyKernel, ⟨tinyImage, [], tinyImage⟩, [], Release.presetPath,
    .tinyShell, text "rv32imac_zicntr_zicsr_zifencei", text "ilp32", 0x3f00000⟩
  stop := stop

/-- The inputs recorded in an archive. -/
def archivedInputs (d : Dist) (name : Text) : Option InputMap :=
  match d.entries (archiveName name) with
  | some (.archive archived) => archived.manifest.map (·.buildInputs)
  | _ => none

def tinyHistory : List Run := [tinyRun Release.builtTree 20, tinyRun Release.laterTree 15]

/-- The second packager has moved its directory in, and the first one's archive
is reused for it. -/
theorem resume_reuses_older_archive :
    ¬ ∀ runs : List Run, Honest tinyReaders Release.plainSha runs
      (after tinyReaders Release.plainSha runs) := by
  intro h
  have hreuses : reuses Release.plainSha Release.laterTree tinyName
      (after tinyReaders Release.plainSha tinyHistory) = true := by
    decide +kernel
  obtain ⟨_, _, p, _, harchive, hmanifest⟩ := h tinyHistory _ _ hreuses
  have hsame : archivedInputs (after tinyReaders Release.plainSha tinyHistory) tinyName =
      ((after tinyReaders Release.plainSha tinyHistory).manifest? tinyName).map
        (·.buildInputs) := by
    rw [archivedInputs, harchive, hmanifest]
    rfl
  revert hsame
  decide +kernel

end LinuxBuild.Publish
