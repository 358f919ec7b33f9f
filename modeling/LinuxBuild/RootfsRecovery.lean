import LinuxBuild.RootfsCache

/-!
# The run after

A run with no other program failing, in the world an earlier run left, wherever
that was stopped.
-/

namespace LinuxBuild.Rootfs

open Crash

variable {Key : Type}

/-- The makes succeed, and one BusyBox was built with the features asked for. -/
structure Externals.Succeed (e : Externals) (r : Request) : Prop where
  clean : e.cleanStops = none
  build : e.buildStops = none
  busybox : ∃ config, e.busyboxConfigs = [config] ∧
    ∀ line ∈ requiredFeatures r, line ∈ Python.splitlines config

/-! ## Files written -/

theorem applyAll_writing (put : File → World Key → World Key) (cut : Nat) (c : Content)
    (w : World Key) : applyAll (writing put cut c) w =
      put (.whole c) (applyAll ((c.parts cut).map (put ∘ .torn)) w) := by
  rw [writing, applyAll_append, applyAll_cons, applyAll_nil]

/-- Writing keeps what every put keeps. -/
theorem writing_keeps {P : World Key → Prop} {put : File → World Key → World Key}
    (h : ∀ file w, P w → P (put file w)) {cut : Nat} {c : Content} {w : World Key} (hw : P w) :
    P (applyAll (writing put cut c) w) := by
  refine applyAll_keeps (fun f hf w hw => ?_) hw
  obtain ⟨file, rfl, _⟩ := mem_writing hf
  exact h file w hw

variable [DecidableEq Key]

/-! ## Outcomes -/

/-- The published files are those of a verified directory under the key. -/
def Served (tools : Tools Key) (r : Request) (w : World Key) : Prop :=
  ∃ entry record rootfs config, w.entry (tools.keyOf r) = some entry ∧
    Verified tools (tools.keyOf r) entry record rootfs config ∧
    (w.published r.bits).output = .whole (.data rootfs) ∧
    (w.published r.bits).manifest = .whole (.record record)

/-- The run ends without an exception and leaves a verified rootfs. -/
def Recovers (tools : Tools Key) (r : Request) (e : Externals) (w : World Key) : Prop :=
  (run (ensure tools r e) w).1 = none ∧ Served tools r (run (ensure tools r e) w).2

/-- Under the key of the request stands a directory that lacks a whole file,
and no complete manifest without features gets it renamed. -/
def HalfWritten (tools : Tools Key) (r : Request) (w : World Key) : Prop :=
  ∃ entry, w.entry (tools.keyOf r) = some entry ∧ ¬ Complete entry ∧
    ¬ ∃ prior, entry .manifest = .whole (.record prior) ∧ unverified prior = true

/-! ## Entries written -/

theorem entry_writing {k : Key} {f : CacheFile} {cut : Nat} {c : Content} {w : World Key}
    {entry : Entry} (h : w.entry k = some entry) :
    (applyAll (writing (World.setEntry k f) cut c) w).entry k = some (entry.set f (.whole c)) := by
  have hparts : ∃ entry', (applyAll ((c.parts cut).map (World.setEntry k f ∘ .torn)) w).entry k =
      some entry' ∧ ∀ g, g ≠ f → entry' g = entry g := by
    refine applyAll_keeps (P := fun w : World Key => ∃ entry', w.entry k = some entry' ∧
      ∀ g, g ≠ f → entry' g = entry g) ?_ ⟨entry, h, fun _ _ => rfl⟩
    rintro put hput w ⟨entry', he, hother⟩
    obtain ⟨part, _, rfl⟩ := List.mem_map.mp hput
    refine ⟨entry'.set f (.torn part), ?_, fun g hg => ?_⟩
    · rw [Function.comp_apply, entry_setEntry, if_pos rfl, he]
      rfl
    · simp only [Entry.set, if_neg hg]
      exact hother g hg
  obtain ⟨entry', he, hother⟩ := hparts
  rw [applyAll_writing, entry_setEntry, if_pos rfl, he]
  refine congrArg some (funext fun g => ?_)
  simp only [Entry.set]
  split
  · rfl
  · rename_i hg
    exact hother g hg

/-- After the copy loop every listed file is whole. -/
theorem entry_copied {k : Key} {files : CacheFile → Content} {cut : Nat} {order : List CacheFile}
    {w : World Key} {entry : Entry} (h : w.entry k = some entry) :
    ∃ entry', (applyAll (order.flatMap fun f => writing (World.setEntry k f) cut (files f)) w).entry k
        = some entry' ∧
      (∀ f ∈ order, entry' f = .whole (files f)) ∧
      ∀ f, entry f = .whole (files f) → entry' f = .whole (files f) := by
  induction order generalizing w entry with
  | nil => exact ⟨entry, h, by simp, fun _ hf => hf⟩
  | cons g order ih =>
    rw [List.flatMap_cons, applyAll_append]
    obtain ⟨entry', he, horder, hkeep⟩ := ih (entry_writing (f := g) (c := files g) h)
    have hg : entry' g = .whole (files g) := hkeep g (by simp [Entry.set])
    refine ⟨entry', he, ?_, fun f hf => hkeep f ?_⟩
    · intro f hf
      obtain rfl | hf := List.mem_cons.mp hf
      · exact hg
      · exact horder f hf
    · simp only [Entry.set]
      split
      · rename_i hfg
        rw [hfg]
      · exact hf

/-! ## A run that rebuilds -/

theorem run_copytree_exists {tools : Tools Key} {r : Request} {e : Externals}
    {files : CacheFile → Content} {a : World Key} (h : (a.entry (tools.keyOf r)).isSome = true) :
    (run (copytree tools r e files) a).1 = some .fileExistsError := by
  simp only [copytree, run, h, if_true]

theorem run_copytree {tools : Tools Key} {r : Request} {e : Externals}
    {files : CacheFile → Content} {a : World Key} (h : a.entry (tools.keyOf r) = none) :
    (run (copytree tools r e files) a).1 = none ∧
    (run (copytree tools r e files) a).2.entry (tools.keyOf r) =
      some (fun f => .whole (files f)) ∧
    ((run (copytree tools r e files) a).2.published r.bits).output =
      (a.published r.bits).output ∧
    ((run (copytree tools r e files) a).2.published r.bits).manifest = .whole (files .manifest) := by
  simp only [copytree, run, h, Option.isSome_none, Bool.false_eq_true, if_false, run_acts]
  generalize hb : applyAll (e.order.flatMap fun f =>
    writing (World.setEntry (tools.keyOf r) f) e.cut (files f)) (a.addEntry (tools.keyOf r)) = b
  have hentry : b.entry (tools.keyOf r) = some (fun f => .whole (files f)) := by
    obtain ⟨entry, he, horder, _⟩ := entry_copied (w := a.addEntry (tools.keyOf r))
      (by rw [entry_addEntry, if_pos rfl])
    rw [← hb, he]
    exact congrArg some (funext fun f => horder f (e.listed f))
  have hpublished : b.published = a.published := by
    rw [← hb]
    refine applyAll_keeps (P := fun w : World Key => w.published = a.published) (fun f hf w hw => ?_) rfl
    obtain ⟨g, _, hg⟩ := List.mem_flatMap.mp hf
    obtain ⟨file, rfl, _⟩ := mem_writing hg
    exact hw
  have houtput : (applyAll (writing (World.setManifest r.bits) e.cut (files .manifest))
      b.dropStaging).entries = b.entries ∧
      ((applyAll (writing (World.setManifest r.bits) e.cut (files .manifest))
        b.dropStaging).published r.bits).output = (a.published r.bits).output := by
    refine writing_keeps (P := fun w : World Key => w.entries = b.entries ∧
      (w.published r.bits).output = (a.published r.bits).output) (fun file w hw => ?_)
      ⟨rfl, by rw [World.dropStaging, hpublished]⟩
    constructor
    · exact hw.1
    · simp only [World.setManifest, World.setPublished, if_true]
      exact hw.2
  refine ⟨trivial, ?_, houtput.2, ?_⟩
  · rw [World.entry, houtput.1]
    exact hentry
  · rw [applyAll_writing]
    simp [World.setManifest, World.setPublished]

theorem run_publish (tools : Tools Key) (kept : Bool) (config : Text) {r : Request} {e : Externals}
    {image : Data} {a : World Key}
    (himage : (a.published r.bits).output = .whole (.data image)) :
    ((a.entry (tools.keyOf r)).isSome = true →
      (run (publish tools r e kept config) a).1 = some .fileExistsError) ∧
    (a.entry (tools.keyOf r) = none → (run (publish tools r e kept config) a).1 = none ∧
      Served tools r (run (publish tools r e kept config) a).2) := by
  simp only [publish, run, himage, File.content?, run_acts]
  generalize hb : applyAll (stagedFiles.flatMap fun f => writing (World.setStaging f) e.cut
    (staged r e image config (newRecord tools r e kept image config) f))
    (addRecord r kept a).addStaging = b
  have hbeside : b.entries = a.entries ∧ b.published = a.published := by
    rw [← hb]
    refine applyAll_keeps (P := fun w : World Key => w.entries = a.entries ∧ w.published = a.published)
      (fun f hf w hw => ?_) ⟨rfl, rfl⟩
    obtain ⟨g, _, hg⟩ := List.mem_flatMap.mp hf
    obtain ⟨file, rfl, _⟩ := mem_writing hg
    exact hw
  have hentry : b.entry (tools.keyOf r) = a.entry (tools.keyOf r) := by
    rw [World.entry, World.entry, hbeside.1]
  constructor
  · intro h
    exact run_copytree_exists (hentry ▸ h)
  · intro h
    obtain ⟨hend, hwhole, hout, hmanifest⟩ := run_copytree (e := e)
      (hentry.trans h)
    exact ⟨hend, _, _, image, .text config, hwhole, staged_verified tools r e kept image config,
      hout.trans (by rw [hbeside.2]; exact himage), hmanifest⟩

theorem run_checkBuild {tools : Tools Key} {r : Request} {e : Externals} {kept : Bool}
    {config : Text} (a : World Key) (hc : e.busyboxConfigs = [config])
    (hf : ∀ line ∈ requiredFeatures r, line ∈ Python.splitlines config) :
    run (checkBuild tools r e kept) a = run (publish tools r e kept config) a := by
  have hmissing : (requiredFeatures r).filter
      (fun line => !(Python.splitlines config).contains line) = [] := by
    rw [List.filter_eq_nil_iff]
    intro line hline
    simpa using hf line hline
  simp only [checkBuild, hc, hmissing, ne_eq, not_true_eq_false, if_false]

theorem run_build {tools : Tools Key} {r : Request} {e : Externals} {kept : Bool} (a : World Key)
    (he : e.Succeed r) :
    ((a.entry (tools.keyOf r)).isSome = true →
      (run (build tools r e kept) a).1 = some .fileExistsError) ∧
    (a.entry (tools.keyOf r) = none → (run (build tools r e kept) a).1 = none ∧
      Served tools r (run (build tools r e kept) a).2) := by
  obtain ⟨config, hc, hf⟩ := he.busybox
  simp only [build, runMake, he.build, run_acts]
  generalize hb : applyAll (buildActs tools r e) (applyAll
    (stamping (World.setStamp r.bits) (tools.md5.hash r.fragment)) a) = b
  have hentries : b.entries = a.entries := by
    rw [← hb]
    refine applyAll_keeps (P := fun w : World Key => w.entries = a.entries) (fun f hf w hw => ?_) rfl
    simp only [buildActs, List.mem_append, List.mem_cons, List.not_mem_nil, or_false] at hf
    obtain ((rfl | rfl) | hf) | hf := hf
    · exact hw
    · exact hw
    · exact (aside_writing (aside_setOutput _) _ _ f hf w).2.2.trans hw
    · exact (aside_stamping (aside_setLegacyStamp _) _ f hf w).2.2.trans hw
  have himage : (b.published r.bits).output = .whole (.data (.bytes e.image)) := by
    rw [← hb, buildActs, applyAll_append, applyAll_append, applyAll_writing]
    simp [stamping, World.setLegacyStamp, World.setOutput, World.setPublished]
  rw [run_checkBuild b hc hf]
  have hentry : b.entry (tools.keyOf r) = a.entry (tools.keyOf r) := by
    rw [World.entry, World.entry, hentries]
  have hpublish := run_publish tools kept config (e := e) himage
  exact ⟨fun h => hpublish.1 (hentry ▸ h), fun h => hpublish.2 (hentry.trans h)⟩

/-- A run that finds no manifest builds; it serves the result unless a
directory is in the way. -/
theorem run_rebuild {tools : Tools Key} {r : Request} {e : Externals} (a : World Key)
    (he : e.Succeed r) :
    ((a.entry (tools.keyOf r)).isSome = true →
      (run (rebuild tools r e) a).1 = some .fileExistsError) ∧
    (a.entry (tools.keyOf r) = none → (run (rebuild tools r e) a).1 = none ∧
      Served tools r (run (rebuild tools r e) a).2) := by
  simp only [rebuild, run]
  split
  · exact run_build a he
  · simp only [runMake, he.clean, run_acts]
    exact run_build (emptied r.bits (dropImage r.bits a)) he

/-! ## A run that finds a manifest -/

/-- A hit changes no directory. -/
theorem run_useCache_entries (tools : Tools Key) (r : Request) (e : Externals) (record : Record)
    (a : World Key) : (run (useCache tools r e record) a).2.entries = a.entries := by
  have hacts : ∀ rootfs, (run (acts (writing (World.setOutput r.bits) e.cut rootfs ++
      stamping (World.setLegacyStamp r.bits) (tools.md5.hash r.fragment) ++
      writing (World.setManifest r.bits) e.cut (.record record)) .done :
      Prog (World Key) Failure) a).2.entries = a.entries := by
    intro rootfs
    rw [run_acts]
    refine applyAll_keeps (P := fun w : World Key => w.entries = a.entries) (fun f hf w hw => ?_) rfl
    simp only [List.mem_append] at hf
    obtain (hf | hf) | hf := hf
    · exact (aside_writing (aside_setOutput _) _ _ f hf w).2.2.trans hw
    · exact (aside_stamping (aside_setLegacyStamp _) _ f hf w).2.2.trans hw
    · exact (aside_writing (aside_setManifest _) _ _ f hf w).2.2.trans hw
  simp only [useCache, run]
  split
  · rfl
  · split
    · rfl
    · split
      · split
        · rfl
        · split
          · rfl
          · split
            · rfl
            · exact hacts _
      · rfl

theorem run_useCache {tools : Tools Key} {r : Request} {e : Externals} {entry : Entry}
    {record : Record} {rootfs config : Data} {a : World Key}
    (h : a.entry (tools.keyOf r) = some entry)
    (hv : Verified tools (tools.keyOf r) entry record rootfs config) :
    (run (useCache tools r e record) a).1 = none ∧
    Served tools r (run (useCache tools r e record) a).2 := by
  have hentries := run_useCache_entries tools r e record a
  have hid : record.identity = r.identity tools.sha := tools.key_injective hv.identity
  simp only [useCache, run, hid, ne_eq, not_true_eq_false, if_false, h, hv.initramfs,
    File.content?, File.digest?, hv.rootfsSha256, hv.config, hv.configSha256, run_acts]
    at hentries ⊢
  refine ⟨trivial, entry, record, rootfs, config, ?_, hv, ?_, ?_⟩
  · rw [World.entry, hentries]
    exact h
  · rw [applyAll_append]
    refine writing_keeps (P := fun w : World Key => (w.published r.bits).output = .whole (.data rootfs))
      (fun file w hw => ?_) ?_
    · simp only [World.setManifest, World.setPublished, if_true]
      exact hw
    · rw [applyAll_append, applyAll_writing]
      simp [stamping, World.setLegacyStamp, World.setOutput, World.setPublished]
  · rw [applyAll_append, applyAll_writing]
    simp [World.setManifest, World.setPublished]

theorem run_lookupCache_missing {tools : Tools Key} {r : Request} {e : Externals} {a : World Key}
    (h : readManifest (tools.keyOf r) a = .missing) :
    run (lookupCache tools r e) a = run (rebuild tools r e) a := by
  simp only [lookupCache, run, h]

/-! ## The whole run -/

theorem recovers_of_none {tools : Tools Key} {r : Request} {e : Externals} {w : World Key}
    (he : e.Succeed r) (h : w.entry (tools.keyOf r) = none) : Recovers tools r e w := by
  have hm : readManifest (tools.keyOf r) w = .missing := by rw [readManifest, h]
  have hrun : run (ensure tools r e) w = run (rebuild tools r e) w := by
    simp only [ensure, run, hm]
    exact run_lookupCache_missing hm
  rw [Recovers, hrun]
  exact (run_rebuild w he).2 h

theorem not_recovers_of_absent {tools : Tools Key} {r : Request} {e : Externals} {w : World Key}
    {entry : Entry} (he : e.Succeed r) (h : w.entry (tools.keyOf r) = some entry)
    (habsent : entry .manifest = .absent) : ¬ Recovers tools r e w := by
  have hm : readManifest (tools.keyOf r) w = .missing := by simp only [readManifest, h, habsent]
  have hrun : run (ensure tools r e) w = run (rebuild tools r e) w := by
    simp only [ensure, run, hm]
    exact run_lookupCache_missing hm
  rw [Recovers, hrun, (run_rebuild w he).1 (by rw [h]; rfl)]
  rintro ⟨hend, _⟩
  cases hend

theorem not_recovers_of_unreadable {tools : Tools Key} {r : Request} {e : Externals}
    {w : World Key} (h : readManifest (tools.keyOf r) w = .unreadable) :
    ¬ Recovers tools r e w := by
  rintro ⟨hend, _⟩
  simp [ensure, run, h] at hend

theorem recovers_of_unverified {tools : Tools Key} {r : Request} {e : Externals} {w : World Key}
    {prior : Record} (he : e.Succeed r) (h : readManifest (tools.keyOf r) w = .record prior)
    (hu : unverified prior = true) : Recovers tools r e w := by
  have hentry : (w.retire (tools.keyOf r)).entry (tools.keyOf r) = none := by
    rw [entry_retire, if_pos rfl]
  have hrun : run (ensure tools r e) w = run (rebuild tools r e) (w.retire (tools.keyOf r)) := by
    simp only [ensure, run, h, hu, if_true]
    exact run_lookupCache_missing (by rw [readManifest, hentry])
  rw [Recovers, hrun]
  exact (run_rebuild _ he).2 hentry

theorem run_ensure_hit {tools : Tools Key} {r : Request} {e : Externals} {w : World Key}
    {record : Record} (h : readManifest (tools.keyOf r) w = .record record)
    (hu : unverified record = false) :
    run (ensure tools r e) w = run (useCache tools r e record) w := by
  simp only [ensure, run, h, hu, lookupCache, Bool.false_eq_true, if_false]

theorem halfWritten_iff {tools : Tools Key} {r : Request} {w : World Key} {entry : Entry}
    (h : w.entry (tools.keyOf r) = some entry) : HalfWritten tools r w ↔ ¬ Complete entry ∧
      ¬ ∃ prior, entry .manifest = .whole (.record prior) ∧ unverified prior = true := by
  constructor
  · rintro ⟨entry', hentry', hhalf⟩
    rw [h] at hentry'
    cases hentry'
    exact hhalf
  · intro hhalf
    exact ⟨entry, h, hhalf⟩

/-- Without a complete manifest the directory is not a verified one. -/
theorem not_complete_of_manifest {tools : Tools Key} {k : Key} {w : World Key} {entry : Entry}
    (hw : SoundCache tools w) (h : w.entry k = some entry)
    (hno : ∀ record, entry .manifest ≠ .whole (.record record)) : ¬ Complete entry := by
  obtain ⟨record, rootfs, config, hv⟩ | hc := hw k entry h
  · exact absurd hv.manifest (hno record)
  · exact hc

/-- A hit recovers from a complete directory and from no other. -/
theorem recovers_hit_iff {tools : Tools Key} {r : Request} {e : Externals} {w : World Key}
    {entry : Entry} {record : Record} (hw : SoundCache tools w)
    (h : w.entry (tools.keyOf r) = some entry) (hm : entry .manifest = .whole (.record record))
    (hu : unverified record = false) : Recovers tools r e w ↔ Complete entry := by
  have hread : readManifest (tools.keyOf r) w = .record record := by
    simp only [readManifest, h, hm]
  rw [Recovers, run_ensure_hit hread hu]
  constructor
  · rintro ⟨_, entry', record', rootfs, config, hentry', hv, _⟩
    rw [World.entry, run_useCache_entries] at hentry'
    have hsame : some entry' = some entry := hentry'.symm.trans h
    cases hsame
    exact hv.complete
  · intro hc
    obtain ⟨record', rootfs, config, hv⟩ := (hw _ entry h).resolve_right (not_not_intro hc)
    have heq : File.whole (.record record') = .whole (.record record) := hv.manifest.symm.trans hm
    cases heq
    exact run_useCache h hv

theorem recovers_iff {tools : Tools Key} {r : Request} {e : Externals} {w : World Key}
    (hw : SoundCache tools w) (he : e.Succeed r) :
    Recovers tools r e w ↔ ¬ HalfWritten tools r w := by
  cases h : w.entry (tools.keyOf r) with
  | none =>
    apply iff_of_true (recovers_of_none he h)
    rintro ⟨entry, hentry, _⟩
    rw [h] at hentry
    cases hentry
  | some entry =>
    rw [halfWritten_iff h]
    have hblocked : ¬ Recovers tools r e w →
        (∀ record, entry .manifest ≠ .whole (.record record)) →
        (Recovers tools r e w ↔ ¬ (¬ Complete entry ∧
          ¬ ∃ prior, entry .manifest = .whole (.record prior) ∧ unverified prior = true)) := by
      intro hnot hno
      apply iff_of_false hnot
      exact not_not_intro
        ⟨not_complete_of_manifest hw h hno, fun ⟨prior, hp, _⟩ => hno prior hp⟩
    cases hm : entry .manifest with
    | absent => exact hm ▸ hblocked (not_recovers_of_absent he h hm) (by simp [hm])
    | torn part =>
      have hread : readManifest (tools.keyOf r) w = .unreadable := by simp only [readManifest, h, hm]
      exact hm ▸ hblocked (not_recovers_of_unreadable hread) (by simp [hm])
    | whole content =>
      cases content with
      | data d =>
        have hread : readManifest (tools.keyOf r) w = .unreadable := by
          simp only [readManifest, h, hm]
        exact hm ▸ hblocked (not_recovers_of_unreadable hread) (by simp [hm])
      | record record =>
        cases hu : unverified record with
        | true =>
          have hread : readManifest (tools.keyOf r) w = .record record := by
            simp only [readManifest, h, hm]
          apply iff_of_true (recovers_of_unverified he hread hu)
          rintro ⟨_, hno⟩
          exact hno ⟨record, rfl, hu⟩
        | false =>
          rw [recovers_hit_iff hw h hm hu]
          simp [hu]

/-- After any history of runs stopped anywhere: the next run with no other
program failing ends with a verified rootfs published, exactly when no stop
fell inside the copy into the cache. -/
theorem rootfs_rerun_recovers_iff (tools : Tools Key) (published : Word → Published)
    (runs : List Run) (r : Request) (e : Externals) (he : e.Succeed r) :
    Recovers tools r e (history tools runs (.fresh [] published)) ↔
      ¬ HalfWritten tools r (history tools runs (.fresh [] published)) := by
  refine recovers_iff (history_sound ?_) he
  rintro k entry ⟨⟩

theorem plainExternals_succeed (fragment : Text) :
    plainExternals.Succeed (plainRequest fragment) where
  clean := rfl
  build := rfl
  busybox := ⟨_, rfl, fun _ h => (List.mem_filter.mp h).1⟩

theorem rootfs_rerun_recovers_iff_plain :
    Recovers plainTools (plainRequest (text "A=y\n")) plainExternals
      (history plainTools [plainRun (plainRequest (text "A=y\n"))] (.fresh [] unpublished)) ↔
    ¬ HalfWritten plainTools (plainRequest (text "A=y\n"))
      (history plainTools [plainRun (plainRequest (text "A=y\n"))] (.fresh [] unpublished)) :=
  rootfs_rerun_recovers_iff plainTools unpublished _ _ _ (plainExternals_succeed _)

/-- Stopped right after `copytree` made the directory. -/
def stoppedInCopy : Run := ⟨plainRequest (text "A=y\n"), plainExternals, 28, false⟩

theorem half_written_entry_blocks_every_run :
    ¬ ∀ runs : List Run, Recovers plainTools (plainRequest (text "A=y\n")) plainExternals
      (history plainTools runs (.fresh [] unpublished)) := by
  intro h
  have hend := (h [stoppedInCopy]).1
  exact absurd hend (by decide +kernel)

end LinuxBuild.Rootfs
