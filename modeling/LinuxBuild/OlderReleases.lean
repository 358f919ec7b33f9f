import LinuxBuild.BuiltRelease

/-!
# Builds delete no older release

A packager moves a directory aside before it takes its name, and replaces only
the archive of its own name by a newer one, wherever it and the build around it
stop.
-/

namespace LinuxBuild.BuildRelease

open Crash Repository Publish

/-- The entry is there, or has been moved aside. -/
def Present (d : Dist) (n : Text) (entry : Entry) : Prop :=
  d.entries n = some entry ∨ (n, entry) ∈ d.superseded

/-- What was in the release directory is still there or has been moved aside; or it is
an archive, and now the one that took its place is there or moved aside. -/
structure Kept (A : Text → Content → Prop) (d e : Dist) : Prop where
  entries : ∀ n entry, d.entries n = some entry → Present e n entry ∨
    (∃ c, entry = .archive c) ∧ ∃ c, A n c ∧ Present e n (.archive c)
  superseded : d.superseded ⊆ e.superseded

namespace Kept

variable {A : Text → Content → Prop} {d e f : Dist}

theorem refl : Kept A d d := ⟨fun _ _ h => .inl (.inl h), fun _ h => h⟩

theorem present (h : Kept A d e) {n : Text} {entry : Entry} (hentry : Present d n entry) :
    Present e n entry ∨ (∃ c, entry = .archive c) ∧ ∃ c, A n c ∧ Present e n (.archive c) := by
  obtain hthere | haside := hentry
  · exact h.entries n entry hthere
  · exact .inl (.inr (h.superseded haside))

theorem trans (h : Kept A d e) (h' : Kept A e f) : Kept A d f where
  entries n entry hentry := by
    obtain hpresent | ⟨harchive, c, hc, hpresent⟩ := h.entries n entry hentry
    · exact h'.present hpresent
    · obtain hpresent | ⟨-, hnewer⟩ := h'.present hpresent
      · exact .inr ⟨harchive, c, hc, hpresent⟩
      · exact .inr ⟨harchive, hnewer⟩
  superseded := fun _ hx => h'.superseded (h.superseded hx)

/-- Nothing but the temporary directory changes. -/
theorem of_eq (hentries : e.entries = d.entries) (hsuperseded : e.superseded = d.superseded) :
    Kept A d e := by
  refine ⟨fun n entry h => .inl (.inl ?_), fun x hx => ?_⟩
  · rw [hentries, h]
  · rwa [hsuperseded]

/-- A name that is free is taken. -/
theorem setEntry {name : Text} {entry : Option Entry} (hfree : d.entries name = none) :
    Kept A d (d.setEntry name entry) := by
  refine ⟨fun n old h => .inl (.inl ?_), fun _ h => h⟩
  rw [entries_setEntry, if_neg, h]
  rintro rfl
  rw [hfree] at h
  cases h

theorem makePrior : Kept A d d.makePrior := by
  unfold Dist.makePrior
  split
  · exact refl
  · rename_i hfree
    exact setEntry hfree

theorem supersede (name : Text) : Kept A d (d.supersede name) where
  entries n entry h := by
    by_cases hn : n = name
    · subst hn
      refine .inl (.inr (List.mem_append_left _ ?_))
      simp [h]
    · refine .inl (.inl ?_)
      simp only [Dist.supersede, entries_setEntry, if_neg hn]
      exact h
  superseded _ h := List.mem_append_right _ h

theorem replaceArchive {name : Text} {c : Content} (hname : A (Publish.archiveName name) c)
    (harchive : d.archive = some c)
    (hdir : ∀ c, d.entries (Publish.archiveName name) ≠ some (.dir c)) :
    Kept A d (d.replaceArchive name) where
  entries n entry h := by
    by_cases hn : n = Publish.archiveName name
    · subst hn
      refine .inr ⟨?_, c, hname, .inl ?_⟩
      · cases entry with
        | dir c => exact absurd h (hdir c)
        | archive c => exact ⟨c, rfl⟩
      · rw [Dist.replaceArchive, entries_setEntry, if_pos rfl, harchive]
        rfl
    · refine .inl (.inl ?_)
      rw [Dist.replaceArchive, entries_setEntry, if_neg hn, h]
  superseded _ h := h

end Kept

section

variable {A : Text → Content → Prop} {d : Dist} {p : Packages.Staged}

theorem safe_settle (hA : A (Publish.archiveName p.name) (content p)) {e : Dist} (h : Kept A d e)
    (harchive : e.archive = some (content p)) (hfree : e.entries p.name = none) : Safe (Kept A d) (settle p.name) e := by
  have hmoved : Kept A d (e.moveStage p.name) := h.trans (Kept.setEntry hfree)
  apply safe_act h
  apply safe_ask
  split
  · exact safe_raise hmoved
  · rename_i hdir
    have hreplaced := hmoved.trans (Kept.replaceArchive hA harchive hdir)
    exact safe_cons hmoved (safe_cons hreplaced (safe_done (hreplaced.trans (.of_eq rfl rfl))))

theorem archive_makePrior (e : Dist) : e.makePrior.archive = e.archive := by
  unfold Dist.makePrior
  split <;> rfl

theorem safe_publish (hA : A (Publish.archiveName p.name) (content p)) :
    Safe (Kept A d) (publish p) d := by
  have hstaging : ∀ f ∈ stagingActs p, ∀ e, (Kept A d e ∧ e.entries = d.entries) →
      Kept A d (f e) ∧ (f e).entries = d.entries := by
    rintro f hf e ⟨h, he⟩
    simp only [stagingActs, List.mem_append, List.mem_cons, List.not_mem_nil, or_false,
      List.mem_map] at hf
    obtain (rfl | ⟨file, _, rfl⟩) | rfl | rfl := hf
    · exact ⟨h.trans (.of_eq rfl rfl), he⟩
    · exact ⟨h.trans (.of_eq rfl rfl), he⟩
    · exact ⟨h.trans (.of_eq rfl rfl), he⟩
    · exact ⟨h.trans (.of_eq rfl rfl), he⟩
  intro n
  rw [publish, stopped_acts]
  split
  · exact (applyAll_keeps (fun f hf => hstaging f (List.mem_of_mem_take hf)) ⟨.refl, rfl⟩).1
  · obtain ⟨hstaged, _⟩ := applyAll_keeps hstaging (s := d) ⟨.refl, rfl⟩
    have harchive := (applyAll_staging p d).archive
    generalize applyAll (stagingActs p) d = e at hstaged harchive
    generalize n - (stagingActs p).length = stop
    revert stop
    change Safe (Kept A d) _ e
    apply safe_ask
    split
    · rename_i hfree
      exact safe_settle hA hstaged harchive hfree
    · have hprior := hstaged.trans (.makePrior (A := A))
      apply safe_act hstaged
      split
      · exact safe_raise hprior
      · apply safe_act hprior
        apply safe_settle hA (hprior.trans (.supersede p.name))
          ((archive_makePrior e).trans harchive)
        simp [Dist.supersede]

theorem Kept.mono {B : Text → Content → Prop} {e : Dist} (h : Kept A d e)
    (hAB : ∀ n c, A n c → B n c) : Kept B d e where
  entries n entry hentry :=
    (h.entries n entry hentry).imp id fun ⟨harchive, c, hc, hpresent⟩ =>
      ⟨harchive, c, hAB n c hc, hpresent⟩
  superseded := h.superseded

end

section

variable {toml : Bytes → Option Preset} {int : Text → Option Int} {readers : Packages.Readers}
  {sha : Digest Bytes} {tar : Content → Hash} {r : Run}

theorem safe_runMake_kept {preset : Path} {variant : Variant} {d : Dist} {w : World}
    (hw : Kept (Replaces readers sha r) d w.dist) :
    Safe (fun w => Kept (Replaces readers sha r) d w.dist)
      (runMake readers sha (r.make preset variant)) w := by
  unfold runMake
  dsimp only
  split
  · exact safe_raise hw
  · rename_i packager hpackager
    split
    · exact safe_raise hw
    · rename_i p hp
      have hsafe : Safe (fun w => Kept (Replaces readers sha r) d w.dist)
          (((publish p).cut .raised packager.stop).embed World.dist (work p.name)) w := by
        intro n
        have hdist := stopped_embed (dist_work p.name) n ((publish p).cut .raised packager.stop) w
        rw [stopped_cut] at hdist
        rw [hdist]
        exact hw.trans (safe_publish ⟨preset, variant, packager, p, hpackager, hp, rfl, rfl⟩ _)
      refine safe_andThen hsafe (fun w' hrun => ?_) fun e w' hrun => safe_raise (hsafe.run hrun)
      split
      · exact safe_done (hsafe.run hrun)
      · exact safe_raise (hsafe.run hrun)

/-- No history of builds deletes an older release: whatever lies in the release
directory stays there or is moved aside, or it is an archive and the one that a
packager of one of the builds put in its place is there. -/
theorem older_releases_kept (runs : List (Run × Nat)) (w : World) :
    Kept (fun n c => ∃ r ∈ runs.map (·.1), Replaces readers sha r n c) w.dist
      (history (main toml int readers sha tar) w runs).dist := by
  refine @history_induction _ _ _ (main toml int readers sha tar)
    (fun past w' => Kept (fun n c => ∃ r ∈ past, Replaces readers sha r n c) w.dist w'.dist)
    w .refl ?_ runs
  intro past r w' h
  have hpersists : Persists readers sha r
      fun w'' => Kept (Replaces readers sha r) w'.dist w''.dist :=
    ⟨fun _ _ hw => hw, fun _ _ _ hw => safe_runMake_kept hw⟩
  have hsafe : Safe (fun w'' => Kept (Replaces readers sha r) w'.dist w''.dist)
      (main toml int readers sha tar r) w' := hpersists.main .refl
  refine hsafe.mono fun w'' hw'' => ?_
  have hbefore := h.mono fun n c ⟨r', hr', hreplaces⟩ =>
    (⟨r', List.mem_append_left _ hr', hreplaces⟩ : ∃ r' ∈ past ++ [r], Replaces readers sha r' n c)
  exact hbefore.trans (hw''.mono fun n c hreplaces => ⟨r, by simp, hreplaces⟩)

end

end LinuxBuild.BuildRelease
