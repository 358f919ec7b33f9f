import LinuxBuild.RootfsTree

/-!
# Sources of a kept tree

Whether a tree is kept depends on the fragment alone. The builds in it agree
with the last one about the Buildroot sources, and their overlay files are
among its overlay files, as long as that holds of every build that keeps it.
-/

namespace LinuxBuild.Rootfs

open Crash

/-- Sources of `a` and `b` are the same, and `b` names the overlay files of `a`. -/
structure Covers (a b : Identity) : Prop where
  commit : a.sourceCommit = b.sourceCommit
  diff : a.sourceDiffSha256 = b.sourceDiffSha256
  overlay : ∀ name ∈ a.runtimeBaseline.map (·.1), name ∈ b.runtimeBaseline.map (·.1)

theorem Covers.refl (a : Identity) : Covers a a := ⟨rfl, rfl, fun _ h => h⟩

theorem Covers.trans {a b c : Identity} (h : Covers a b) (h' : Covers b c) : Covers a c :=
  ⟨h.commit.trans h'.commit, h.diff.trans h'.diff, fun name hn => h'.overlay name (h.overlay name hn)⟩

variable {Key : Type}

def CoveredBy (tools : Tools Key) (builds : List Request) (r : Request) : Prop :=
  ∀ b ∈ builds, Covers (b.identity tools.sha) (r.identity tools.sha)

theorem coveredBy_append {tools : Tools Key} {builds : List Request} {r : Request}
    (h : CoveredBy tools builds r) : CoveredBy tools (builds ++ [r]) r := by
  intro b hb
  obtain hb | hb := List.mem_append.mp hb
  · exact h b hb
  · obtain rfl := List.mem_singleton.mp hb
    exact .refl _

/-- The request of an incremental record covers the builds behind it. -/
def RecordsCovered (tools : Tools Key) (w : World Key) : Prop :=
  ∀ rec ∈ w.records, rec.incremental = true → CoveredBy tools rec.builds rec.request

/-- The last build covers those before it, and an incremental record those in
its tree. -/
structure SourcesKept (tools : Tools Key) (w : World Key) : Prop where
  trees : ∀ bits last, (w.trees bits).builds.getLast? = some last →
    CoveredBy tools (w.trees bits).builds last
  records : RecordsCovered tools w

structure SourcesClaimed (tools : Tools Key) (r : Request) (w : World Key) : Prop
    extends SourcesKept tools w where
  claimed : CoveredBy tools (w.trees r.bits).builds r

theorem sourcesKept_setTree {tools : Tools Key} {bits : Word} {f : Tree → Tree} {w : World Key}
    (h : SourcesKept tools w)
    (hf : ∀ last, (f (w.trees bits)).builds.getLast? = some last →
      CoveredBy tools (f (w.trees bits)).builds last) : SourcesKept tools (w.setTree bits f) where
  trees b := setTree_forall
    (p := fun t => ∀ last, t.builds.getLast? = some last → CoveredBy tools t.builds last)
    h.trees hf b
  records := h.records

theorem sourcesClaimed_setTree {tools : Tools Key} {r : Request} {f : Tree → Tree} {w : World Key}
    (h : SourcesClaimed tools r w) (hf : ∀ t, (f t).builds = t.builds) :
    SourcesClaimed tools r (w.setTree r.bits f) :=
  { sourcesKept_setTree h.toSourcesKept (by rw [hf]; exact h.trees r.bits) with
    claimed := by
      simp only [World.setTree, if_true, hf]
      exact h.claimed }

theorem sourcesClaimed_stamp {tools : Tools Key} {r : Request} {w : World Key}
    (h : SourcesKept tools w) (hc : CoveredBy tools (w.trees r.bits).builds r) :
    SourcesClaimed tools r
      ((w.setStamp r.bits []).setStamp r.bits (tools.md5.hash r.fragment)) :=
  sourcesClaimed_setTree (sourcesClaimed_setTree ⟨h, hc⟩ fun _ => rfl) fun _ => rfl

variable [DecidableEq Key]

/-- If the run keeps the tree, the last build in it had the same sources and no
overlay file that is gone. -/
def KeptTreeCovered (tools : Tools Key) (r : Request) (w : World Key) : Prop :=
  let w := settled tools r w
  readManifest (tools.keyOf r) w = .missing → sameConfig tools r w = true →
    ∀ last, (w.trees r.bits).builds.getLast? = some last →
      Covers (last.identity tools.sha) (r.identity tools.sha)

theorem treeRule_sources {tools : Tools Key} {r : Request} {w : World Key}
    (h : SourcesKept tools w) (hkept : KeptTreeCovered tools r w) :
    TreeRule tools r w (SourcesKept tools) (SourcesClaimed tools r) where
  start := h
  beside a b ht hrec ha := ⟨by rw [ht]; exact ha.trees, by rw [RecordsCovered, hrec]; exact ha.records⟩
  beside' a b ht hrec ha :=
    { trees := by rw [ht]; exact ha.trees
      records := by rw [RecordsCovered, hrec]; exact ha.records
      claimed := by rw [ht]; exact ha.claimed }
  weaken a ha := ha.toSourcesKept
  dropImage a ha := sourcesKept_setTree ha (ha.trees r.bits)
  emptied a ha := sourcesKept_setTree ha (by simp)
  unstamp a ha := sourcesKept_setTree ha (ha.trees r.bits)
  kept a ha hs hm hsame := by
    apply sourcesClaimed_stamp ha
    intro b hb
    subst hs
    cases hlast : ((settled tools r w).trees r.bits).builds.getLast? with
    | none => rw [List.getLast?_eq_none_iff.mp hlast] at hb; cases hb
    | some last =>
      exact (ha.trees r.bits last hlast b hb).trans (hkept hm hsame last hlast)
  cleaned a ha hnil := sourcesClaimed_stamp ha (by rw [hnil]; intro b hb; cases hb)
  beginBuild a ha :=
    { sourcesKept_setTree ha.toSourcesKept (by
        intro last hlast
        simp only [List.getLast?_append, List.getLast?_singleton, Option.some_or,
          Option.some.injEq] at hlast
        subst hlast
        exact coveredBy_append ha.claimed) with
      claimed := by
        simp only [beginBuild, World.setTree, if_true]
        exact coveredBy_append ha.claimed }
  setImage image a ha := sourcesClaimed_setTree ha fun _ => rfl
  addRecord kept a ha :=
    { ha with
      records := by
        intro rec hrec hinc
        simp only [addRecord, List.mem_append, List.mem_singleton] at hrec
        obtain hrec | rfl := hrec
        · exact ha.records rec hrec hinc
        · exact ha.claimed }

/-- Every run of the history that keeps its tree finds it covered. -/
def SourcesSteady (tools : Tools Key) : World Key → List Run → Prop
  | _, [] => True
  | w, run :: runs => KeptTreeCovered tools run.request w ∧ SourcesSteady tools (run.after tools w) runs

theorem run_sources {tools : Tools Key} {run : Run} {w : World Key} (h : SourcesKept tools w)
    (hkept : KeptTreeCovered tools run.request w) : SourcesKept tools (run.after tools w) :=
  (treeRule_sources h hkept).runRule.after _ _ _

theorem history_sources {tools : Tools Key} {runs : List Run} {w : World Key}
    (h : SourcesKept tools w) (hsteady : SourcesSteady tools w runs) :
    SourcesKept tools (history tools runs w) := by
  induction runs generalizing w with
  | nil => exact h
  | cons run runs ih => exact ih (run_sources h hsteady.1) hsteady.2

/-- In every history from fresh trees: the builds behind an incremental record
had the record's sources and none but its overlay files. -/
theorem incremental_record_covers_its_builds (tools : Tools Key) (entries : List (Key × Entry))
    (published : Word → Published) (runs : List Run)
    (h : SourcesSteady tools (.fresh entries published) runs) :
    RecordsCovered tools (history tools runs (.fresh entries published)) := by
  have hstart : SourcesKept tools (.fresh entries published) :=
    { trees := by rintro bits last ⟨⟩
      records := by simp [RecordsCovered, World.fresh] }
  exact (history_sources hstart h).records

/-- The request again, without its overlay file. -/
def withoutOverlay (r : Request) : Request := { r with overlay := [] }

/-- A build that fails and is resumed: the tree is kept for the same sources. -/
theorem incremental_record_covers_its_builds_resumed :
    RecordsCovered plainTools (history plainTools
      [⟨plainRequest (text "BR2_PACKAGE_TREE=y\n"), { plainExternals with buildStops := some 1 },
        100, false⟩,
       plainRun (plainRequest (text "BR2_PACKAGE_TREE=y\n"))] (.fresh [] unpublished)) := by
  refine incremental_record_covers_its_builds plainTools [] unpublished _ ⟨?_, ?_, trivial⟩
  · rintro _ _ last ⟨⟩
  · rintro _ _ last hlast
    have heq : some (plainRequest (text "BR2_PACKAGE_TREE=y\n")) = some last := hlast
    rw [← Option.some.inj heq]
    exact .refl _

theorem removed_overlay_file_survives :
    ¬ ∀ runs : List Run,
      RecordsCovered plainTools (history plainTools runs (.fresh [] unpublished)) := by
  intro h
  have hcovers := h [plainRun (plainRequest (text "BR2_PACKAGE_TREE=y\n")),
    plainRun (withoutOverlay (plainRequest (text "BR2_PACKAGE_TREE=y\n")))]
  have hlost : ((history plainTools [plainRun (plainRequest (text "BR2_PACKAGE_TREE=y\n")),
      plainRun (withoutOverlay (plainRequest (text "BR2_PACKAGE_TREE=y\n")))]
      (.fresh [] unpublished)).records.all fun rec => !rec.incremental || rec.builds.all fun b =>
      ((b.identity plainTools.sha).runtimeBaseline.map (·.1)).all
        ((rec.request.identity plainTools.sha).runtimeBaseline.map (·.1)).contains) = false := by
    decide +kernel
  rw [Bool.eq_false_iff] at hlost
  refine hlost (List.all_eq_true.mpr fun rec hrec => ?_)
  cases hinc : rec.incremental with
  | false => rfl
  | true =>
    simp only [Bool.not_true, Bool.false_or, List.all_eq_true, List.contains_iff_mem]
    exact fun b hb name hn => (hcovers rec hrec hinc b hb).overlay name hn

end LinuxBuild.Rootfs
