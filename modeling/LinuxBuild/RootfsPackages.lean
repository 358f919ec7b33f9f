import LinuxBuild.RootfsTree

/-!
# Removed packages

A stamp names a fragment that enables every package built into the tree since
its last clean. The tree is kept for another fragment on the word of `values`
alone, so a history is sound as long as `values` reads what it compares.
-/

namespace LinuxBuild.Rootfs

open Crash

/-- Every package some build enabled is enabled in `config`. -/
def KeepsPackages (builds : List Request) (config : Text) : Prop :=
  ∀ b ∈ builds, ∀ symbol, Python.startswith symbol packagePrefix = true →
    enables b.fragment symbol = true → enables config symbol = true

theorem keepsPackages_nil (config : Text) : KeepsPackages [] config := by simp [KeepsPackages]

theorem keepsPackages_append {builds : List Request} {r : Request}
    (h : KeepsPackages builds r.fragment) : KeepsPackages (builds ++ [r]) r.fragment := by
  intro b hb
  obtain hb | hb := List.mem_append.mp hb
  · exact h b hb
  · obtain rfl := List.mem_singleton.mp hb
    exact fun _ _ he => he

variable {Key : Type}

/-- The stamp of a tree says the truth about its packages. -/
structure TreeStamped (tools : Tools Key) (t : Tree) : Prop where
  unstamped : t.stamp = none → t.builds = [] ∧ t.builtImage = none
  stamped : ∀ h, t.stamp = some h → h ≠ [] →
    ∃ config, h = tools.md5.hash config ∧ KeepsPackages t.builds config

/-- Every package built into a record's tree is enabled in the record's fragment. -/
def RecordsKeepPackages (w : World Key) : Prop :=
  ∀ rec ∈ w.records, KeepsPackages rec.builds rec.request.fragment

structure PackagesKept (tools : Tools Key) (w : World Key) : Prop where
  trees : ∀ bits, TreeStamped tools (w.trees bits)
  records : RecordsKeepPackages w

/-- From the stamp on, the tree is the requested fragment's. -/
structure TreeClaimed (tools : Tools Key) (r : Request) (w : World Key) :
    Prop extends PackagesKept tools w where
  stamp : (w.trees r.bits).stamp = some (tools.md5.hash r.fragment)
  claimed : KeepsPackages (w.trees r.bits).builds r.fragment

theorem packagesKept_setTree {tools : Tools Key} {bits : Word}
    {f : Tree → Tree} {w : World Key} (h : PackagesKept tools w)
    (hf : TreeStamped tools (f (w.trees bits))) :
    PackagesKept tools (w.setTree bits f) where
  trees b := setTree_forall h.trees hf b
  records := h.records

theorem setTree_self (bits : Word) (f : Tree → Tree) (w : World Key) :
    (w.setTree bits f).trees bits = f (w.trees bits) := by
  simp [World.setTree]

theorem treeStamped_claim {tools : Tools Key} {r : Request} {t : Tree}
    (hs : t.stamp = some (tools.md5.hash r.fragment))
    (hk : KeepsPackages t.builds r.fragment) : TreeStamped tools t where
  unstamped h := by rw [hs] at h; cases h
  stamped h hh _ := ⟨r.fragment, by rw [hs] at hh; exact (Option.some.inj hh).symm, hk⟩

theorem treeClaimed_setTree {tools : Tools Key} {r : Request}
    {f : Tree → Tree} {w : World Key} (h : PackagesKept tools w)
    (hs : (f (w.trees r.bits)).stamp = some (tools.md5.hash r.fragment))
    (hk : KeepsPackages (f (w.trees r.bits)).builds r.fragment) :
    TreeClaimed tools r (w.setTree r.bits f) :=
  { packagesKept_setTree h (treeStamped_claim hs hk) with
    stamp := by rw [setTree_self]; exact hs
    claimed := by rw [setTree_self]; exact hk }

/-- A torn stamp keeps the invariant: the next run cleans. -/
theorem packagesKept_unstamp {tools : Tools Key} {bits : Word} {w : World Key}
    (h : PackagesKept tools w) : PackagesKept tools (w.setStamp bits []) :=
  packagesKept_setTree h {
    unstamped := by simp
    stamped := by
      rintro hash hh hne
      exact absurd (Option.some.inj hh).symm hne }

/-- What `same_config` knows: the stamped fragment is the requested one, or one
it extends. -/
theorem keepsPackages_of_sameConfig {tools : Tools Key} {r : Request}
    {w : World Key} (h : PackagesKept tools w)
    (hread : ∀ old, (w.trees r.bits).stamp = some (tools.md5.hash old) → old ≠ r.fragment →
      ReadAlike old ∧ ReadAlike r.fragment)
    (hsame : sameConfig tools r w = true) : KeepsPackages (w.trees r.bits).builds r.fragment := by
  unfold sameConfig at hsame
  cases hs : (w.trees r.bits).stamp with
  | none =>
    rw [hs, ((h.trees r.bits).unstamped hs).2] at hsame
    split at hsame
    · rename_i hstamp
      cases hstamp
    · split at hsame
      · rename_i himage _
        cases himage
      · cases hsame
  | some previous =>
    simp only [hs, Bool.or_eq_true, beq_iff_eq] at hsame
    have hne : previous ≠ [] := by
      rintro rfl
      obtain hsame | hsame := hsame
      · exact tools.md5.nonempty _ hsame.symm
      · split at hsame
        · rename_i old hfind
          exact tools.md5.nonempty old (beq_iff_eq.mp (List.find?_some hfind :))
        · cases hsame
    obtain ⟨config, rfl, hkeeps⟩ := (h.trees r.bits).stamped previous hs hne
    by_cases heq : config = r.fragment
    · exact heq ▸ hkeeps
    · obtain hsame | hsame := hsame
      · exact absurd (Digest.hash_eq.mp hsame) heq
      · split at hsame
        · rename_i old hfind
          have hold : old = config := Digest.hash_eq.mp (beq_iff_eq.mp (List.find?_some hfind :))
          subst hold
          obtain ⟨ho, hc⟩ := hread old hs heq
          intro b hb symbol hp he
          exact enables_of_onlyAddsPackages ho hc hsame hp (hkeeps b hb symbol hp he)
        · cases hsame

variable [DecidableEq Key]

/-- If the run keeps the tree of another fragment, `values` reads the packages of both as
Buildroot does. -/
def KeptTreeReadAlike (tools : Tools Key) (r : Request) (w : World Key) : Prop :=
  let w := settled tools r w
  readManifest (tools.keyOf r) w = .missing → sameConfig tools r w = true →
    ∀ old, (w.trees r.bits).stamp = some (tools.md5.hash old) → old ≠ r.fragment →
      ReadAlike old ∧ ReadAlike r.fragment

theorem treeRule_packages {tools : Tools Key} {r : Request} {w : World Key}
    (h : PackagesKept tools w)
    (hread : KeptTreeReadAlike tools r w) :
    TreeRule tools r w (PackagesKept tools) (TreeClaimed tools r) where
  start := h
  beside a b ht hrec ha := ⟨by rw [ht]; exact ha.trees, by rw [RecordsKeepPackages, hrec]; exact ha.records⟩
  beside' a b ht hrec ha :=
    { trees := by rw [ht]; exact ha.trees
      records := by rw [RecordsKeepPackages, hrec]; exact ha.records
      stamp := by rw [ht]; exact ha.stamp
      claimed := by rw [ht]; exact ha.claimed }
  weaken a ha := ha.toPackagesKept
  dropImage a ha := packagesKept_setTree ha {
    unstamped := fun hs => ⟨((ha.trees r.bits).unstamped hs).1, rfl⟩
    stamped := (ha.trees r.bits).stamped }
  emptied a ha := packagesKept_setTree ha {
    unstamped := fun hs => ⟨rfl, ((ha.trees r.bits).unstamped hs).2⟩
    stamped := fun hash hh hne => by
      obtain ⟨config, heq, _⟩ := (ha.trees r.bits).stamped hash hh hne
      exact ⟨config, heq, keepsPackages_nil config⟩ }
  unstamp a ha := packagesKept_unstamp ha
  kept a ha hs hm hsame :=
    treeClaimed_setTree (packagesKept_unstamp ha) rfl (by
      subst hs
      rw [World.setStamp, setTree_self]
      exact keepsPackages_of_sameConfig ha (hread hm hsame) hsame)
  cleaned a ha hnil :=
    treeClaimed_setTree (packagesKept_unstamp ha) rfl (by
      rw [World.setStamp, setTree_self]
      simp only [hnil]
      exact keepsPackages_nil _)
  beginBuild a ha :=
    treeClaimed_setTree ha.toPackagesKept ha.stamp (keepsPackages_append ha.claimed)
  setImage image a ha := treeClaimed_setTree ha.toPackagesKept ha.stamp ha.claimed
  addRecord _ a ha :=
    { ha with
      records := by
        intro rec hrec
        simp only [addRecord, List.mem_append, List.mem_singleton] at hrec
        obtain hrec | rfl := hrec
        · exact ha.records rec hrec
        · exact ha.claimed }

/-- Every run of the history that keeps its tree reads the fragments as Buildroot does. -/
def NeverMisread (tools : Tools Key) : World Key → List Run → Prop
  | _, [] => True
  | w, run :: runs =>
    KeptTreeReadAlike tools run.request w ∧ NeverMisread tools (run.after tools w) runs

theorem run_packages {tools : Tools Key} {run : Run} {w : World Key} (h : PackagesKept tools w)
    (hread : KeptTreeReadAlike tools run.request w) : PackagesKept tools (run.after tools w) :=
  (treeRule_packages h hread).runRule.after _ _ _

theorem history_packages {tools : Tools Key} {runs : List Run} {w : World Key}
    (h : PackagesKept tools w) (hread : NeverMisread tools w runs) :
    PackagesKept tools (history tools runs w) := by
  induction runs generalizing w with
  | nil => exact h
  | cons run runs ih => exact ih (run_packages h hread.1) hread.2

/-- In every history from fresh trees: what a record's tree was built with is
enabled in the record's fragment, if `values` never misreads what it keeps. -/
theorem removed_packages_do_not_survive (tools : Tools Key) (entries : List (Key × Entry))
    (published : Word → Published) (runs : List Run)
    (h : NeverMisread tools (.fresh entries published) runs) :
    RecordsKeepPackages (history tools runs (.fresh entries published)) := by
  have hstart : PackagesKept tools (.fresh entries published) :=
    { trees := fun bits => ⟨fun _ => ⟨rfl, rfl⟩, fun hash hh => by cases hh⟩
      records := by simp [RecordsKeepPackages, World.fresh] }
  exact (history_packages hstart h).records

theorem removed_packages_do_not_survive_wget :
    RecordsKeepPackages (history plainTools
      [plainRun (plainRequest (text "BR2_PACKAGE_TREE=y\nBR2_PACKAGE_WGET=y\n")),
       plainRun (plainRequest (text "BR2_PACKAGE_TREE=y\n"))] (.fresh [] unpublished)) := by
  refine removed_packages_do_not_survive plainTools [] unpublished _ ⟨?_, ?_, trivial⟩
  · intro _ hsame
    exact absurd hsame (by decide +kernel)
  · intro _ hsame
    exact absurd hsame (by decide +kernel)

/-- A preset with these packages and this root password. -/
def presetWith (packages : List Text) (rootPassword : Option Text) : Request :=
  plainRequest (genBuildrootConfig (fun c => [c.toUpper])
    { compression := text "gzip", packages := packages, shell := none,
      rootPassword := rootPassword, baseline := text "/r" })

/-- `values` takes the carriage returns for line ends. -/
def crPassword : Option Text := some (text "p\rBR2_PACKAGE_TREE=y\r")

theorem removed_package_survives :
    ¬ ∀ runs : List Run,
      (∀ run ∈ runs, ∃ upper cfg, run.request.fragment = genBuildrootConfig upper cfg) →
      RecordsKeepPackages (history plainTools runs (.fresh [] unpublished)) := by
  intro h
  have hkeeps := h [plainRun (presetWith [text "tree"] crPassword),
    plainRun (presetWith [] crPassword)] (by
      intro run hrun
      simp only [List.mem_cons, List.not_mem_nil, or_false] at hrun
      obtain rfl | rfl := hrun <;> exact ⟨_, _, rfl⟩)
  have hlost : ((history plainTools [plainRun (presetWith [text "tree"] crPassword),
      plainRun (presetWith [] crPassword)] (.fresh [] unpublished)).records.all fun rec =>
      rec.builds.all fun b => !enables b.fragment (text "BR2_PACKAGE_TREE") ||
        enables rec.request.fragment (text "BR2_PACKAGE_TREE")) = false := by decide +kernel
  rw [Bool.eq_false_iff] at hlost
  refine hlost (List.all_eq_true.mpr fun rec hrec => List.all_eq_true.mpr fun b hb => ?_)
  cases he : enables b.fragment (text "BR2_PACKAGE_TREE") with
  | false => rfl
  | true => simpa using hkeeps rec hrec b hb (text "BR2_PACKAGE_TREE") (by decide) he

end LinuxBuild.Rootfs
