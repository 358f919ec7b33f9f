import LinuxBuild.BuildRelease

/-!
# What `build-result.json` says

A record that says `pass` lists the packages of the matrix, finds no other
archive in the release directory, and has the digest of each archive that lies
there. It can be stopped and started again as often as one likes.
-/

namespace LinuxBuild.Publish

open Crash

/-! ## One packager -/

theorem left_frame {p : Packages.Staged} {d s : Dist} {n : Nat} (h : Left p d n s) {m : Text}
    (hname : m ≠ p.name) (harchive : m ≠ archiveName p.name) (hprior : m ≠ prior) :
    s.entries m = d.entries m := by
  have hmakePrior : d.makePrior.entries m = d.entries m := by
    unfold Dist.makePrior
    split
    · rfl
    · rw [entries_setEntry, if_neg hprior]
  have hcleared : (cleared p d).entries m = d.entries m := by
    unfold cleared
    split
    · rfl
    · simp only [Dist.supersede, entries_setEntry, if_neg hname]
      exact hmakePrior
  have hmoved : (moved p d).entries m = d.entries m := by
    rw [moved, entries_setEntry, if_neg hname, hcleared]
  cases h with
  | untouched h => rw [h]
  | prior h => rw [h, hmakePrior]
  | cleared h => rw [h, hcleared]
  | moved h _ => rw [h, hmoved]
  | replaced h => rw [h, replaced, entries_setEntry, if_neg harchive, hmoved]

/-- Every archive that is there afterwards was there, or is the packager's own. -/
theorem left_archive {p : Packages.Staged} {d s : Dist} {n : Nat} (h : Left p d n s) {m : Text}
    {c : Content} (hentry : s.entries m = some (.archive c)) :
    d.entries m = some (.archive c) ∨ m = archiveName p.name ∧ c = content p := by
  have hprior : d.makePrior.entries m = some (.archive c) → d.entries m = some (.archive c) := by
    unfold Dist.makePrior
    split
    · exact id
    · rw [entries_setEntry]
      split
      · rintro ⟨⟩
      · exact id
  have hcleared : (cleared p d).entries m = some (.archive c) →
      d.entries m = some (.archive c) := by
    unfold cleared
    split
    · exact id
    · simp only [Dist.supersede, entries_setEntry]
      split
      · rintro ⟨⟩
      · exact hprior
  have hmoved : (moved p d).entries m = some (.archive c) → d.entries m = some (.archive c) := by
    rw [moved, entries_setEntry]
    split
    · rintro ⟨⟩
    · exact hcleared
  cases h with
  | untouched h => exact .inl (h ▸ hentry)
  | prior h => exact .inl (hprior (h ▸ hentry))
  | cleared h => exact .inl (hcleared (h ▸ hentry))
  | moved h _ => exact .inl (hmoved (h ▸ hentry))
  | replaced h =>
    rw [h, replaced, entries_setEntry] at hentry
    split at hentry
    · rename_i hm
      cases hentry
      exact .inr ⟨hm, rfl⟩
    · exact .inl (hmoved hentry)

/-- A packager that ends well leaves its own archive. -/
theorem publish_archive {p : Packages.Staged} {d s : Dist} (h : run (publish p) d = (none, s)) :
    s.entries (archiveName p.name) = some (.archive (content p)) := by
  have hsettle : ∀ e, e.archive = some (content p) → run (settle p.name) e = (none, s) →
      s.entries (archiveName p.name) = some (.archive (content p)) := by
    intro e he hrun
    simp only [settle, run] at hrun
    split at hrun
    · cases hrun
    · simp only [run_acts, applyAll_cons, applyAll_nil, run, Prod.mk.injEq, true_and] at hrun
      rw [← hrun]
      simp only [Dist.openStage, Dist.replaceArchive, Dist.moveStage, entries_setEntry, if_true]
      exact congrArg (Option.map Entry.archive) he
  have hstaged := (applyAll_staging p d).archive
  rw [publish, run_acts] at h
  simp only [run] at h
  split at h
  · exact hsettle _ hstaged h
  · simp only [run] at h
    split at h
    · cases h
    · refine hsettle _ ?_ h
      have hprior : ∀ e : Dist, e.makePrior.archive = e.archive := by
        intro e
        unfold Dist.makePrior
        split <;> rfl
      exact (hprior _).trans hstaged

end LinuxBuild.Publish

namespace LinuxBuild.BuildRelease

open Crash Repository Publish

/-! ## One `make` -/

/-- Every name in use is listed. -/
def Covers (w : World) : Prop := ∀ n, (w.dist.entries n).isSome = true → n ∈ w.names

/-- What a `make` of a package leaves alone. -/
structure Within (name : Text) (w w' : World) : Prop where
  result : w'.result = w.result
  frame : ∀ n, n ∉ taken name → w'.dist.entries n = w.dist.entries n
  covers : Covers w'

section

variable {readers : Packages.Readers} {sha : Digest Bytes}

/-- The packager of a `make` has the name of its package. -/
def Make.Named (readers : Packages.Readers) (sha : Digest Bytes) (m : Make) (name : Text) : Prop :=
  ∀ packager p, m.packager = some packager → packager.package readers sha = .ok p → p.name = name

theorem dist_work (name : Text) (f : Dist → Dist) (w : World) :
    (work name f w).dist = f w.dist := rfl

theorem safe_runMake {m : Make} {name : Text} {w : World} (hnamed : m.Named readers sha name)
    (hw : Covers w) : Safe (Within name w) (runMake readers sha m) w := by
  have hstart : Within name w w := ⟨rfl, fun _ _ => rfl, hw⟩
  unfold runMake
  dsimp only
  split
  · exact safe_raise hstart
  · rename_i packager hpackager
    split
    · exact safe_raise hstart
    · rename_i p hp
      obtain rfl := hnamed packager p hpackager hp
      have hsafe : Safe (Within p.name w) (((publish p).cut .raised packager.stop).embed
          World.dist (work p.name)) w := by
        intro n
        -- the result stays, and the names are listed with the first act
        have hkeeps : ∀ t : World, (t.result = w.result ∧
            (t = w ∨ taken p.name ⊆ t.names ∧ w.names ⊆ t.names)) → ∀ f : Dist → Dist,
            (work p.name f t).result = w.result ∧
              (work p.name f t = w ∨ taken p.name ⊆ (work p.name f t).names ∧
                w.names ⊆ (work p.name f t).names) := by
          rintro t ⟨hresult, hnames⟩ f
          refine ⟨hresult, .inr ⟨fun x hx => List.mem_union_iff.mpr (.inl hx), fun x hx => ?_⟩⟩
          apply List.mem_union_iff.mpr
          obtain rfl | ⟨_, hnames⟩ := hnames
          · exact .inr hx
          · exact .inr (hnames hx)
        have hall : ActsOnly (fun f => ∀ t : World, (t.result = w.result ∧
            (t = w ∨ taken p.name ⊆ t.names ∧ w.names ⊆ t.names)) →
            (work p.name f t).result = w.result ∧
              (work p.name f t = w ∨ taken p.name ⊆ (work p.name f t).names ∧
                w.names ⊆ (work p.name f t).names))
            ((publish p).cut Packages.Refusal.raised packager.stop) :=
          actsOnly_of_forall fun f t ht => hkeeps t ht f
        obtain ⟨hresult, hnames⟩ := safe_embed hall ⟨rfl, .inl rfl⟩ n
        have hdist := stopped_embed (dist_work p.name) n ((publish p).cut .raised packager.stop) w
        rw [stopped_cut] at hdist
        have hframe : ∀ m, m ∉ taken p.name → (stopped n (((publish p).cut .raised
            packager.stop).embed World.dist (work p.name)) w).dist.entries m =
              w.dist.entries m := by
          intro m hm
          simp only [taken, List.mem_cons, List.not_mem_nil, or_false, not_or] at hm
          rw [hdist]
          exact left_frame (publish_left p w.dist _) hm.1 hm.2.1 hm.2.2
        refine ⟨hresult, hframe, ?_⟩
        intro m hm
        obtain hsame | ⟨htaken, hkept⟩ := hnames
        · rw [hsame] at hm ⊢
          exact hw m hm
        · by_cases hmem : m ∈ taken p.name
          · exact htaken hmem
          · rw [hframe m hmem] at hm
            exact hkept (hw m hm)
      refine safe_andThen hsafe (fun w' hrun => ?_) fun e w' hrun => ?_
      · have hend := hsafe.run hrun
        split
        · exact safe_done hend
        · exact safe_raise hend
      · exact safe_raise (hsafe.run hrun)

/-- A `make` that returns 0 has run its packager to the end. -/
theorem runMake_archive {m : Make} {w w' : World} (h : run (runMake readers sha m) w = (none, w')) :
    ∃ packager p, m.packager = some packager ∧ packager.package readers sha = .ok p ∧
      w'.dist.entries (Publish.archiveName p.name) = some (.archive (content p)) := by
  unfold runMake at h
  dsimp only at h
  split at h
  · cases h
  · rename_i packager hpackager
    split at h
    · cases h
    · rename_i p hp
      rw [run_andThen] at h
      split at h
      · rename_i w₁ hrun
        have hend : w₁ = w' := by
          split at h
          · exact (Prod.mk.inj h).2
          · cases h
        have hdist := run_embed (dist_work p.name) ((publish p).cut .raised packager.stop) w
        rw [hrun] at hdist
        refine ⟨packager, p, hpackager, hp, ?_⟩
        rw [← hend]
        exact publish_archive (run_of_cut hdist.symm)
      · cases h

end

/-! ## Names -/

/-- A name that no archive can have. -/
def PlainName (name : Text) : Prop := Python.endswith name archiveSuffix = false ∧ name ≠ prior

theorem endswith_archiveName (name : Text) :
    Python.endswith (Publish.archiveName name) archiveSuffix = true := by
  rw [Python.endswith, List.isSuffixOf_iff_suffix]
  exact ⟨name, rfl⟩

/-- Two packages have nothing in common in the release directory. -/
theorem apart {a b : Text} (ha : PlainName a) (hb : PlainName b) (hne : a ≠ b) :
    a ∉ taken b ∧ Publish.archiveName a ∉ taken b := by
  simp only [taken, List.mem_cons, List.not_mem_nil, or_false, not_or]
  refine ⟨⟨hne, ?_, ha.2⟩, ?_, fun h => hne (archiveName_inj h), archiveName_ne_prior a⟩
  · rintro rfl
    rw [PlainName, endswith_archiveName] at ha
    cases ha.1
  · intro h
    rw [← h, PlainName, endswith_archiveName] at hb
    cases hb.1

/-! ## The loop -/

section

variable {toml : Bytes → Option Preset} {int : Text → Option Int} {readers : Packages.Readers}
  {sha : Digest Bytes} {tar : Content → Hash} {r : Run}

def packagesFor (p : Path) (cfg : Preset) (vs : List Variant) : List Package :=
  vs.map fun variant => ⟨p, cfg, variant, packageName p cfg variant⟩

/-- The packages of some presets, in the order in which they are built. -/
def packagesOf (configs : List Config) : List Package :=
  configs.flatMap fun item => packagesFor item.1 item.2 (variants item.2)

/-- What `make` puts into the archive of a package. -/
def Makes (readers : Packages.Readers) (sha : Digest Bytes) (r : Run) (a : Package) (c : Content) :
    Prop :=
  ∃ packager p, (r.make a.preset a.variant).packager = some packager ∧
    packager.package readers sha = .ok p ∧ c = content p

/-- An item that speaks of the archive that is there: one that has just been
made, or one that lies beside a directory whose inputs are still there. -/
def Recorded (readers : Packages.Readers) (sha : Digest Bytes) (tar : Content → Hash) (r : Run)
    (w : World) (a : Package) (item : Item) : Prop :=
  item.archive = Publish.archiveName a.name ∧ item.returncode = some 0 ∧
    ∃ c, w.dist.entries item.archive = some (.archive c) ∧ item.sha256 = some (tar c) ∧
      if item.reused then r.resume = true ∧ ∃ m, w.dist.manifest? a.name = some m ∧
        current sha r.tree m.buildInputs = true
      else Makes readers sha r a c

/-- The record does not say `pass`. -/
def Unfinished (w : World) : Prop := ∀ s, w.result = .whole s → s.pass = false

/-- The loop has built the packages. -/
structure Built (readers : Packages.Readers) (sha : Digest Bytes) (tar : Content → Hash) (r : Run)
    (built : List Package) (s : Status) (w : World) : Prop where
  covers : Covers w
  unfinished : Unfinished w
  pass : s.pass = false
  items : List.Forall₂ (Recorded readers sha tar r w) built s.packages

/-- The record of a package stays true while others are made. -/
theorem Recorded.within {name : Text} {w w' : World} {a : Package} {item : Item}
    (h : Recorded readers sha tar r w a item) (hwithin : Within name w w')
    (ha : PlainName a.name) (hname : PlainName name) (hne : a.name ≠ name) :
    Recorded readers sha tar r w' a item := by
  obtain ⟨hfree, hfreeArchive⟩ := apart ha hname hne
  obtain ⟨harchive, hcode, c, hentry, hsha, horigin⟩ := h
  refine ⟨harchive, hcode, c, ?_, hsha, ?_⟩
  · rw [hwithin.frame _ (harchive ▸ hfreeArchive), hentry]
  · split
    · rename_i hreused
      rw [if_pos hreused] at horigin
      obtain ⟨hresume, m, hm, hcurrent⟩ := horigin
      refine ⟨hresume, m, ?_, hcurrent⟩
      rw [Dist.manifest?, hwithin.frame _ hfree]
      exact hm
    · rename_i hreused
      rwa [if_neg hreused] at horigin

/-- Saving touches the record only. -/
theorem Recorded.save {w : World} {a : Package} {item : Item} (s : Status)
    (h : Recorded readers sha tar r w a item) :
    Recorded readers sha tar r (applyAll (save s) w) a item := h

/-- The two acts of `save`, for a record that does not say `pass`. -/
theorem safe_save {I : World → Prop} {s : Status} {w : World} {next : Prog World Stop}
    (hI : ∀ w, Covers w → Unfinished w → I w) (hs : s.pass = false) (hw : Covers w) (hold : I w)
    (hnext : Covers (applyAll (save s) w) → Unfinished (applyAll (save s) w) →
      Safe I next (applyAll (save s) w)) : Safe I (acts (save s) next) w := by
  have hlast : Unfinished (applyAll (save s) w) := by
    intro st hst
    cases hst
    exact hs
  refine safe_cons hold (safe_cons (hI { w with result := .torn } hw ?_) (hnext hw hlast))
  intro st hst
  cases hst

/-- One more package, whose archive the new item speaks of. -/
theorem Built.add {built : List Package} {s : Status} {w w' : World} {a : Package} {item : Item}
    (h : Built readers sha tar r built s w)
    (hitems : ∀ b ∈ built, ∀ i, Recorded readers sha tar r w b i →
      Recorded readers sha tar r w' b i)
    (hitem : Recorded readers sha tar r w' a item)
    (hcovers : Covers (applyAll (save (s.add item)) w'))
    (hunfinished : Unfinished (applyAll (save (s.add item)) w')) :
    Built readers sha tar r (built ++ [a]) (s.add item) (applyAll (save (s.add item)) w') where
  covers := hcovers
  unfinished := hunfinished
  pass := h.pass
  items := by
    apply List.rel_append _ (.cons (hitem.save _) .nil)
    apply (List.forall₂_iff_get.mpr ⟨h.items.length_eq, ?_⟩)
    intro i hi hi'
    exact (hitems _ (List.get_mem _ _) _ (h.items.get hi hi')).save _

section Loop

variable {I : World → Prop} {next : Status → Prog World Stop}
  (hI : ∀ w, Covers w → Unfinished w → I w)

include hI

section Package

variable {a : Package} {built : List Package} {s : Status} {w : World}
  (hnamed : (r.make a.preset a.variant).Named readers sha a.name)
  (hbuilt : ∀ b ∈ built, PlainName b.name ∧ b.name ≠ a.name) (hplain : PlainName a.name)
  (h : Built readers sha tar r built s w)
  (hnext : ∀ s w, Built readers sha tar r (built ++ [a]) s w → Safe I (next s) w)

include hnamed hbuilt hplain h hnext

theorem safe_makePackage :
    Safe I (makePackage readers sha tar r a.preset a.variant a.name s next) w := by
  unfold makePackage
  dsimp only
  generalize hitem : madeItem r a.preset a.variant a.name = item
  have harchive : item.archive = Publish.archiveName a.name := by rw [← hitem]; rfl
  have hreused : item.reused = false := by rw [← hitem]; rfl
  have hpass : ∀ item, (s.add item).pass = false := fun _ => h.pass
  apply safe_save hI (hpass _) h.covers (hI w h.covers h.unfinished)
  intro hcovers hunfinished
  have hmake := safe_runMake hnamed hcovers
  have hwithin : ∀ w', Within a.name (applyAll (save (s.add item)) w) w' → I w' := by
    intro w' hw'
    exact hI w' hw'.covers fun st hst => hunfinished st (hw'.result ▸ hst)
  refine safe_andThen (hmake.mono hwithin) (fun w' hrun => ?_) fun code w' hrun => ?_
  · obtain ⟨packager, p, hpackager, hp, hentry⟩ := runMake_archive hrun
    rw [hnamed packager p hpackager hp, ← harchive] at hentry
    have hend := hmake.run hrun
    apply safe_ask
    rw [hentry]
    apply safe_save hI (hpass _) hend.covers (hwithin w' hend)
    intro hcovers' hunfinished'
    apply hnext
    apply h.add _ _ hcovers' hunfinished'
    · intro b hb i hi
      obtain ⟨hplainB, hne⟩ := hbuilt b hb
      exact (hi.save (s.add item)).within hend hplainB hplain hne
    · refine ⟨harchive, rfl, content p, hentry, rfl, ?_⟩
      rw [if_neg (by rw [hreused]; exact Bool.false_ne_true)]
      exact ⟨packager, p, hpackager, hp, rfl⟩
  · have hend := hmake.run hrun
    apply safe_save hI (hpass _) hend.covers (hwithin w' hend)
    intro hcovers' hunfinished'
    exact safe_raise (hI _ hcovers' hunfinished')

theorem safe_buildPackage (hname : a.name = packageName a.preset a.cfg a.variant) :
    Safe I (buildPackage readers sha tar r a.preset a.cfg a.variant s next) w := by
  have hmake := safe_makePackage hI hnamed hbuilt hplain h hnext
  have hold := hI w h.covers h.unfinished
  have hpass : ∀ item, (s.add item).pass = false := fun _ => h.pass
  unfold buildPackage
  rw [← hname]
  dsimp only
  split
  · rename_i hresume
    apply safe_ask
    split
    · rename_i entry m hentry hm
      split
      · rename_i hcurrent
        split
        · rename_i content
          apply safe_save hI (hpass _) h.covers hold
          intro hcovers' hunfinished'
          apply hnext
          apply h.add (fun b _ i hi => hi) _ hcovers' hunfinished'
          refine ⟨rfl, rfl, content, hentry, rfl, ?_⟩
          rw [if_pos rfl]
          exact ⟨hresume, m, hm, hcurrent⟩
        · exact safe_raise hold
      · exact hmake
    · exact hmake
  · exact hmake

end Package

/-- A package that a build can make and tell from the others. -/
structure Fit (readers : Packages.Readers) (sha : Digest Bytes) (r : Run) (a : Package) : Prop where
  name : a.name = packageName a.preset a.cfg a.variant
  plain : PlainName a.name
  named : (r.make a.preset a.variant).Named readers sha a.name

theorem safe_buildVariants {p : Path} {cfg : Preset} {vs : List Variant} {built : List Package}
    {s : Status} {w : World}
    (hfit : ∀ a ∈ built ++ packagesFor p cfg vs, Fit readers sha r a)
    (hnodup : ((built ++ packagesFor p cfg vs).map (·.name)).Nodup)
    (h : Built readers sha tar r built s w)
    (hnext : ∀ s w, Built readers sha tar r (built ++ packagesFor p cfg vs) s w →
      Safe I (next s) w) :
    Safe I (buildVariants readers sha tar r p cfg vs s next) w := by
  induction vs generalizing built s w with
  | nil => exact hnext s w (by simpa [packagesFor] using h)
  | cons v vs ih =>
    have hsplit : built ++ packagesFor p cfg (v :: vs) =
        built ++ [⟨p, cfg, v, packageName p cfg v⟩] ++ packagesFor p cfg vs := by
      simp [packagesFor]
    rw [hsplit] at hfit hnodup hnext
    have hhead := hfit ⟨p, cfg, v, packageName p cfg v⟩ (by simp)
    apply safe_buildPackage hI hhead.named _ hhead.plain h _ hhead.name
    · intro b hb
      refine ⟨(hfit b (by simp [hb])).plain, fun heq => ?_⟩
      rw [List.append_assoc, List.map_append, List.nodup_append] at hnodup
      exact hnodup.2.2 _ (List.mem_map_of_mem hb) _ (by simp) heq
    · intro s w hbuilt
      exact ih hfit hnodup hbuilt hnext

theorem safe_buildConfigs {configs : List Config} {built : List Package} {s : Status} {w : World}
    (hfit : ∀ a ∈ built ++ packagesOf configs, Fit readers sha r a)
    (hnodup : ((built ++ packagesOf configs).map (·.name)).Nodup)
    (h : Built readers sha tar r built s w)
    (hnext : ∀ s w, Built readers sha tar r (built ++ packagesOf configs) s w → Safe I (next s) w) :
    Safe I (buildConfigs int readers sha tar r configs s next) w := by
  induction configs generalizing built s w with
  | nil => exact hnext s w (by simpa [packagesOf] using h)
  | cons item configs ih =>
    obtain ⟨p, cfg⟩ := item
    have hsplit : built ++ packagesOf ((p, cfg) :: configs) =
        built ++ packagesFor p cfg (variants cfg) ++ packagesOf configs := by
      simp [packagesOf]
    rw [hsplit] at hfit hnodup hnext
    unfold buildConfigs
    split
    · exact safe_raise (hI w h.covers h.unfinished)
    · rw [List.map_append] at hnodup
      apply safe_buildVariants hI (fun a ha => hfit a (List.mem_append_left _ ha))
        (List.Nodup.of_append_left hnodup) h
      intro s w hbuilt
      exact ih hfit (by rwa [List.map_append]) hbuilt hnext

end Loop

end

/-! ## The plan and the matrix -/

theorem perm_mapM {α β : Type} {f : α → Option β} {xs ys : List α} (h : xs.Perm ys) {as : List β}
    (hxs : xs.mapM f = some as) : ∃ bs, ys.mapM f = some bs ∧ as.Perm bs := by
  induction h generalizing as with
  | nil => exact ⟨as, hxs, .refl _⟩
  | cons x _ ih =>
    rw [List.mapM_cons] at hxs
    obtain ⟨a, ha, hxs⟩ := Option.bind_eq_some_iff.mp hxs
    obtain ⟨rest, hrest, hxs⟩ := Option.bind_eq_some_iff.mp hxs
    cases hxs
    obtain ⟨bs, hbs, hperm⟩ := ih hrest
    refine ⟨a :: bs, ?_, hperm.cons a⟩
    rw [List.mapM_cons, ha, hbs]
    rfl
  | swap x y zs =>
    rw [List.mapM_cons] at hxs
    obtain ⟨b, hb, hxs⟩ := Option.bind_eq_some_iff.mp hxs
    obtain ⟨rest, hrest, hxs⟩ := Option.bind_eq_some_iff.mp hxs
    rw [List.mapM_cons] at hrest
    obtain ⟨a, ha, hrest⟩ := Option.bind_eq_some_iff.mp hrest
    obtain ⟨cs, hcs, hrest⟩ := Option.bind_eq_some_iff.mp hrest
    cases hrest
    cases hxs
    refine ⟨a :: b :: cs, ?_, .swap a b cs⟩
    rw [List.mapM_cons, ha, List.mapM_cons, hb, hcs]
    rfl
  | trans _ _ ih₁ ih₂ =>
    obtain ⟨bs, hbs, hperm⟩ := ih₁ hxs
    obtain ⟨cs, hcs, hperm'⟩ := ih₂ hbs
    exact ⟨cs, hcs, hperm.trans hperm'⟩

theorem mapM_then {α β γ : Type} (g : α → Option β) (f : β → γ) (xs : List α) :
    (xs.mapM fun x => (g x).map f) = (xs.mapM g).map (List.map f) := by
  induction xs with
  | nil => rfl
  | cons x xs ih =>
    rw [List.mapM_cons, List.mapM_cons, ih]
    cases g x with
    | none => rfl
    | some b => cases xs.mapM g <;> rfl

section

variable {toml : Bytes → Option Preset} {int : Text → Option Int} {t : Tree} {configs : List Config}

/-- The matrix has the packages of the presets, in the order of the paths. -/
theorem matrix_eq : matrix toml t =
    ((sorted (t.glob Repository.configs (text ".toml"))).mapM (readConfig toml t)).map
      packagesOf := by
  have hrow : (fun p => do
      let cfg ← toml (← t.file? p)
      return (variants cfg).map fun variant =>
        (⟨p, cfg, variant, packageName p cfg variant⟩ : Package)) =
      fun p => (readConfig toml t p).map fun item =>
        packagesFor item.1 item.2 (variants item.2) := by
    funext p
    rw [readConfig]
    cases t.file? p with
    | none => rfl
    | some content => cases htoml : toml content <;> simp [htoml, packagesFor]
  rw [matrix, hrow, mapM_then]
  generalize (sorted (t.glob Repository.configs (text ".toml"))).mapM (readConfig toml t) = read
  cases read with
  | none => rfl
  | some items => simp [packagesOf, List.flatMap_def]

theorem mapM_keyed {items : List Config} {keyed : List (Key × Config)}
    (h : items.mapM (fun item => do
      let key ← order int item
      return (key, item)) = some keyed) :
    keyed.map (·.2) = items ∧ ∀ item ∈ items, (order int item).isSome = true := by
  induction items generalizing keyed with
  | nil =>
    cases h
    simp
  | cons item items ih =>
    rw [List.mapM_cons] at h
    obtain ⟨pair, hpair, h⟩ := Option.bind_eq_some_iff.mp h
    obtain ⟨rest, hrest, h⟩ := Option.bind_eq_some_iff.mp h
    obtain ⟨key, hkey, hpair⟩ := Option.bind_eq_some_iff.mp hpair
    cases hpair
    cases h
    obtain ⟨hitems, hsome⟩ := ih hrest
    refine ⟨by rw [List.map_cons, hitems], fun i hi => ?_⟩
    obtain rfl | hi := List.mem_cons.mp hi
    · rw [hkey]
      rfl
    · exact hsome i hi

/-- The plan has the packages of the matrix, and a key for every preset. -/
theorem plan_matrix (h : plan toml int t = some configs) :
    (∃ packages, matrix toml t = some packages ∧ (packagesOf configs).Perm packages) ∧
      ∀ item ∈ configs, (order int item).isSome = true := by
  obtain ⟨read, hread, h⟩ := Option.bind_eq_some_iff.mp h
  obtain ⟨keyed, hkeyed, h⟩ := Option.bind_eq_some_iff.mp h
  cases h
  obtain ⟨hitems, hsome⟩ := mapM_keyed hkeyed
  have hperm : ((keyed.insertionSort byKey).map (·.2)).Perm read := by
    rw [← hitems]
    exact (List.perm_insertionSort byKey keyed).map _
  constructor
  · have hsorted := (List.mergeSort_perm (t.glob Repository.configs (text ".toml"))
      fun a b => decide (a ≤ b)).symm
    obtain ⟨byPath, hbyPath, hsame⟩ := perm_mapM hsorted hread
    refine ⟨packagesOf byPath, ?_, (hperm.trans hsame).flatMap_right _⟩
    rw [matrix_eq, sorted, hbyPath]
    rfl
  · intro item hitem
    exact hsome item (hperm.mem_iff.mp hitem)

theorem isSome_of_mapM {α β : Type} {f : α → Option β} {xs : List α} {bs : List β}
    (h : xs.mapM f = some bs) : ∀ x ∈ xs, (f x).isSome = true := by
  induction xs generalizing bs with
  | nil => simp
  | cons x xs ih =>
    rw [List.mapM_cons] at h
    obtain ⟨b, hb, h⟩ := Option.bind_eq_some_iff.mp h
    obtain ⟨rest, hrest, _⟩ := Option.bind_eq_some_iff.mp h
    rintro y hy
    obtain rfl | hy := List.mem_cons.mp hy
    · rw [hb]
      rfl
    · exact ih hrest y hy

/-- A version that ends like an archive has `gz` for its last part. -/
theorem gz_mem_splitOn (front : Text) : text "gz" ∈ (front ++ archiveSuffix).splitOn '.' := by
  have hend : front ++ archiveSuffix = front ++ '.' :: (text "tar" ++ '.' :: text "gz") := rfl
  rw [hend, List.splitOn_append_cons_self, List.splitOn_append_cons_self]
  simp [show (text "gz").splitOn '.' = [text "gz"] by decide]

/-- `int` of every part of a version keeps the names clear of the archives. -/
theorem plainName {p : Path} {cfg : Preset} {variant : Variant} (hgz : int (text "gz") = none)
    (horder : (order int (p, cfg)).isSome = true) : PlainName (packageName p cfg variant) := by
  obtain ⟨key, hkey⟩ := Option.isSome_iff_exists.mp horder
  obtain ⟨version, hversion, _⟩ := Option.bind_eq_some_iff.mp hkey
  have hparts : text "gz" ∉ cfg.kernelVersion.splitOn '.' := by
    intro hmem
    have hsome := isSome_of_mapM hversion _ hmem
    rw [hgz] at hsome
    cases hsome
  rw [packageName_eq]
  constructor
  · rw [Bool.eq_false_iff, ne_eq, Python.endswith, List.isSuffixOf_iff_suffix]
    rintro ⟨front, hfront⟩
    rw [← List.append_assoc] at hfront
    obtain ⟨x, hx, hsuffix⟩ | ⟨x, _, hend⟩ := List.append_eq_append_iff.mp hfront
    · cases x using List.reverseRecOn with
      | nil =>
        rw [List.nil_append] at hsuffix
        exact hparts (hsuffix ▸ gz_mem_splitOn [])
      | append_singleton x c =>
        -- the version is joined with `-v`, which no suffix has
        have hjoined : text "linux-riscv-" ++ (label p cfg variant ++ text "-v") =
            (text "linux-riscv-" ++ label p cfg variant ++ ['-']) ++ ['v'] := by simp [text]
        rw [hjoined, ← List.append_assoc] at hx
        obtain rfl : 'v' = c := List.singleton_inj.mp (List.append_inj' hx rfl).2
        have hv : 'v' ∈ archiveSuffix := by
          rw [hsuffix]
          simp
        revert hv
        decide
    · exact hparts (hend ▸ gz_mem_splitOn x)
  · intro h
    have hhead := congrArg List.head? h
    simp [prior, text] at hhead

end

/-! ## Whole builds -/

section

variable {toml : Bytes → Option Preset} {int : Text → Option Int} {readers : Packages.Readers}
  {sha : Digest Bytes} {tar : Content → Hash} {r : Run}

/-- The packages of the matrix have different names, and the makefile gives
each packager the name that the matrix has for it. -/
structure Run.Fair (toml : Bytes → Option Preset) (readers : Packages.Readers)
    (sha : Digest Bytes) (r : Run) : Prop where
  distinct : ∀ packages, matrix toml r.tree = some packages → (packages.map (·.name)).Nodup
  named : ∀ packages, matrix toml r.tree = some packages → ∀ a ∈ packages,
    (r.make a.preset a.variant).Named readers sha a.name

/-- The record and the release directory are those of a complete build. -/
structure Complete (toml : Bytes → Option Preset) (readers : Packages.Readers)
    (sha : Digest Bytes) (tar : Content → Hash) (r : Run) (s : Status) (w : World) : Prop where
  items : ∃ packages built, matrix toml r.tree = some packages ∧ built.Perm packages ∧
    List.Forall₂ (Recorded readers sha tar r w) built s.packages
  archives : ∀ n, Python.endswith n archiveSuffix = true →
    ((w.dist.entries n).isSome = true ↔ n ∈ s.packages.map (·.archive))

theorem mem_archives {w : World} (hw : Covers w) {n : Text} :
    n ∈ w.archives ↔ Python.endswith n archiveSuffix = true ∧ (w.dist.entries n).isSome = true := by
  simp only [World.archives, List.mem_filter, Bool.and_eq_true]
  exact ⟨fun h => h.2, fun h => ⟨hw n h.2, h⟩⟩

theorem Recorded.endswith {built : List Package} {items : List Item} {w : World}
    (h : List.Forall₂ (Recorded readers sha tar r w) built items) :
    ∀ n ∈ items.map (·.archive), Python.endswith n archiveSuffix = true := by
  intro n hn
  obtain ⟨item, hitem, rfl⟩ := List.mem_map.mp hn
  obtain ⟨i, hi, rfl⟩ := List.mem_iff_getElem.mp hitem
  have hrecorded := h.get (h.length_eq ▸ hi) hi
  rw [List.get_eq_getElem] at hrecorded
  rw [show items[i].archive = _ from hrecorded.1]
  exact endswith_archiveName _

/-- The comparison at the end, and the record that says `pass`. -/
theorem safe_finish {I : World → Prop} {packages built : List Package} {s : Status} {w : World}
    (hI : ∀ w, Covers w → Unfinished w → I w)
    (hpass : ∀ s w, Covers w → w.result = .whole s → Complete toml readers sha tar r s w → I w)
    (hmatrix : matrix toml r.tree = some packages) (hperm : built.Perm packages)
    (h : Built readers sha tar r built s w) : Safe I (finish s) w := by
  apply safe_ask
  dsimp only
  split
  · rename_i hset
    rw [Python.setEq_iff] at hset
    refine safe_cons (hI w h.covers h.unfinished) (safe_cons (hI { w with result := .torn }
      h.covers fun st hst => by cases hst) (safe_done ?_))
    refine hpass { s with pass := true } _ h.covers rfl
      ⟨⟨packages, built, hmatrix, hperm, h.items⟩, ?_⟩
    intro n hn
    rw [← hset n, mem_archives h.covers]
    exact ⟨fun hsome => ⟨hn, hsome⟩, fun hboth => hboth.2⟩
  · exact safe_raise (hI w h.covers h.unfinished)

theorem safe_main {I : World → Prop} {w : World} (hgz : int (text "gz") = none)
    (hfair : r.Fair toml readers sha) (hI : ∀ w, Covers w → Unfinished w → I w)
    (hpass : ∀ s w, Covers w → w.result = .whole s → Complete toml readers sha tar r s w → I w)
    (hw : Covers w) (hold : I w) : Safe I (main toml int readers sha tar r) w := by
  unfold main
  split
  · exact safe_raise hold
  · split
    · exact safe_raise hold
    · rename_i configs hplan
      obtain ⟨⟨packages, hmatrix, hperm⟩, hkeys⟩ := plan_matrix hplan
      have hfit : ∀ a ∈ packagesOf configs, Fit readers sha r a := by
        intro a ha
        obtain ⟨item, hitem, ha'⟩ := List.mem_flatMap.mp ha
        obtain ⟨variant, _, rfl⟩ := List.mem_map.mp ha'
        exact ⟨rfl, plainName hgz (hkeys item hitem),
          hfair.named packages hmatrix _ (hperm.mem_iff.mp ha)⟩
      have hnodup : ((packagesOf configs).map (·.name)).Nodup :=
        (hperm.map _).nodup_iff.mpr (hfair.distinct packages hmatrix)
      refine safe_save hI (s := blank r configs) rfl hw hold fun hcovers hunfinished => ?_
      have hstart : Built readers sha tar r [] (blank r configs)
          (applyAll (save (blank r configs)) w) := ⟨hcovers, hunfinished, rfl, .nil⟩
      refine safe_buildConfigs hI ?_ ?_ hstart fun s w hbuilt => ?_
      · exact hfit
      · exact hnodup
      · exact safe_finish hI hpass hmatrix hperm hbuilt

/-! ## Where archives come from -/

/-- A packager of the build makes the archive under the name. -/
def Replaces (readers : Packages.Readers) (sha : Digest Bytes) (r : Run) (n : Text) (c : Content) :
    Prop :=
  ∃ preset variant packager p, (r.make preset variant).packager = some packager ∧
    packager.package readers sha = .ok p ∧ n = Publish.archiveName p.name ∧ c = content p

/-- A packager of one of the builds made each archive that is there, under its name. -/
def Sourced (readers : Packages.Readers) (sha : Digest Bytes) (runs : List Run) (w : World) : Prop :=
  ∀ n c, w.dist.entries n = some (.archive c) → ∃ r ∈ runs, Replaces readers sha r n c

/-- Saving and every `make` keep it, wherever the `make` stops. -/
structure Persists (readers : Packages.Readers) (sha : Digest Bytes) (r : Run) (I : World → Prop) :
    Prop where
  result : ∀ w result, I w → I { w with result := result }
  made : ∀ preset variant w, I w → Safe I (runMake readers sha (r.make preset variant)) w

section Persists

variable {I : World → Prop} {next : Status → Prog World Stop} {w : World}

theorem Persists.save (h : Persists readers sha r I) {s : Status} {next : Prog World Stop} (hw : I w)
    (hnext : ∀ w, I w → Safe I next w) : Safe I (acts (save s) next) w := by
  refine safe_acts hw (fun f hf w hw => ?_) hnext
  simp only [BuildRelease.save, List.mem_cons, List.not_mem_nil, or_false] at hf
  obtain rfl | rfl := hf
  · exact h.result w _ hw
  · exact h.result w _ hw

theorem Persists.makePackage (h : Persists readers sha r I) {p : Path} {variant : Variant}
    {name : Text} {s : Status} (hw : I w) (hnext : ∀ s w, I w → Safe I (next s) w) :
    Safe I (makePackage readers sha tar r p variant name s next) w := by
  apply h.save hw
  intro w hw
  have hsafe := h.made p variant w hw
  refine safe_andThen hsafe (fun w' hrun => ?_) fun code w' hrun => ?_
  · have hw' := hsafe.run hrun
    apply safe_ask
    split
    · exact h.save hw' (hnext _)
    · exact safe_raise hw'
  · exact h.save (hsafe.run hrun) fun w hw => safe_raise hw

theorem Persists.buildVariants (h : Persists readers sha r I) {p : Path} {cfg : Preset}
    {vs : List Variant} {s : Status} (hw : I w) (hnext : ∀ s w, I w → Safe I (next s) w) :
    Safe I (buildVariants readers sha tar r p cfg vs s next) w := by
  induction vs generalizing s w with
  | nil => exact hnext s w hw
  | cons v vs ih =>
    have hrest : ∀ s w, I w →
        Safe I (BuildRelease.buildVariants readers sha tar r p cfg vs s next) w := fun _ _ hw => ih hw
    unfold BuildRelease.buildVariants buildPackage
    dsimp only
    split
    · apply safe_ask
      split
      · split
        · split
          · exact h.save hw (hrest _)
          · exact safe_raise hw
        · exact h.makePackage hw hrest
      · exact h.makePackage hw hrest
    · exact h.makePackage hw hrest

theorem Persists.buildConfigs (h : Persists readers sha r I) {configs : List Config} {s : Status}
    (hw : I w) (hnext : ∀ s w, I w → Safe I (next s) w) :
    Safe I (buildConfigs int readers sha tar r configs s next) w := by
  induction configs generalizing s w with
  | nil => exact hnext s w hw
  | cons item configs ih =>
    unfold BuildRelease.buildConfigs
    split
    · exact safe_raise hw
    · exact h.buildVariants hw fun _ _ hw => ih hw

/-- What saving and every `make` keep, a build keeps wherever it stops. -/
theorem Persists.main (h : Persists readers sha r I) (hw : I w) :
    Safe I (main toml int readers sha tar r) w := by
  unfold BuildRelease.main
  split
  · exact safe_raise hw
  · split
    · exact safe_raise hw
    · apply h.save hw
      intro w hw
      apply h.buildConfigs hw
      intro s w hw
      apply safe_ask
      dsimp only
      split
      · exact h.save hw fun w hw => safe_done hw
      · exact safe_raise hw

end Persists

theorem safe_runMake_sourced {runs : List Run} (hr : r ∈ runs) {preset : Path} {variant : Variant}
    {w : World} (hw : Sourced readers sha runs w) :
    Safe (Sourced readers sha runs) (runMake readers sha (r.make preset variant)) w := by
  unfold runMake
  dsimp only
  split
  · exact safe_raise hw
  · rename_i packager hpackager
    split
    · exact safe_raise hw
    · rename_i p hp
      have hsafe : Safe (Sourced readers sha runs)
          (((publish p).cut .raised packager.stop).embed World.dist (work p.name)) w := by
        intro k n c hentry
        have hdist := stopped_embed (dist_work p.name) k ((publish p).cut .raised packager.stop) w
        rw [stopped_cut] at hdist
        rw [hdist] at hentry
        obtain hold | ⟨rfl, rfl⟩ := left_archive (publish_left p w.dist _) hentry
        · exact hw n c hold
        · exact ⟨r, hr, preset, variant, packager, p, hpackager, hp, rfl, rfl⟩
      refine safe_andThen hsafe (fun w' hrun => ?_) fun e w' hrun => safe_raise (hsafe.run hrun)
      split
      · exact safe_done (hsafe.run hrun)
      · exact safe_raise (hsafe.run hrun)

theorem sourced_history (runs : List (Run × Nat)) :
    Sourced readers sha (runs.map (·.1))
      (history (main toml int readers sha tar) World.empty runs) := by
  refine @history_induction _ _ _ (main toml int readers sha tar)
    (fun past w => Sourced readers sha past w) World.empty ?_ ?_ runs
  · intro n c hentry
    cases hentry
  · intro past r w h
    have hmore : Sourced readers sha (past ++ [r]) w := by
      intro n c hentry
      obtain ⟨r', hr', hreplaces⟩ := h n c hentry
      exact ⟨r', List.mem_append_left _ hr', hreplaces⟩
    have hpersists : Persists readers sha r (Sourced readers sha (past ++ [r])) :=
      ⟨fun _ _ hw => hw, fun _ _ _ hw => safe_runMake_sourced (by simp) hw⟩
    exact hpersists.main hmore

/-- A record that says `pass` is that of a complete build by one of the runs. -/
def Honest (toml : Bytes → Option Preset) (readers : Packages.Readers) (sha : Digest Bytes)
    (tar : Content → Hash) (runs : List Run) (w : World) : Prop :=
  ∀ s, w.result = .whole s → s.pass = true → ∃ r ∈ runs, Complete toml readers sha tar r s w

/-! ## The end of a build -/

section Ends

variable {Q : World → Prop} {next : Status → Prog World Stop}

theorem ends_makePackage {p : Path} {variant : Variant} {name : Text} {s : Status} {w : World}
    (hnext : ∀ s w, Ends Q (next s) w) :
    Ends Q (makePackage readers sha tar r p variant name s next) w := by
  apply ends_acts
  refine ends_andThen (fun w' _ => ?_) fun code w' _ => ends_acts ends_raise
  apply ends_ask
  split
  · exact ends_acts (hnext _ _)
  · exact ends_raise

theorem ends_buildVariants {p : Path} {cfg : Preset} {vs : List Variant} {s : Status} {w : World}
    (hnext : ∀ s w, Ends Q (next s) w) :
    Ends Q (buildVariants readers sha tar r p cfg vs s next) w := by
  induction vs generalizing s w with
  | nil => exact hnext s w
  | cons v vs ih =>
    unfold buildVariants buildPackage
    dsimp only
    split
    · apply ends_ask
      split
      · split
        · split
          · exact ends_acts ih
          · exact ends_raise
        · exact ends_makePackage fun _ _ => ih
      · exact ends_makePackage fun _ _ => ih
    · exact ends_makePackage fun _ _ => ih

theorem ends_buildConfigs {configs : List Config} {s : Status} {w : World}
    (hnext : ∀ s w, Ends Q (next s) w) :
    Ends Q (buildConfigs int readers sha tar r configs s next) w := by
  induction configs generalizing s w with
  | nil => exact hnext s w
  | cons item configs ih =>
    unfold buildConfigs
    split
    · exact ends_raise
    · exact ends_buildVariants fun _ _ => ih

end Ends

/-- A build that returns 0 has saved a record that says `pass`. -/
theorem ends_main {w : World} :
    Ends (fun w => ∃ s, w.result = .whole s ∧ s.pass = true)
      (main toml int readers sha tar r) w := by
  unfold main
  split
  · exact ends_raise
  · split
    · exact ends_raise
    · apply ends_acts
      apply ends_buildConfigs
      intro s w
      apply ends_ask
      dsimp only
      split
      · intro w' hrun
        cases hrun
        exact ⟨{ s with pass := true }, rfl, rfl⟩
      · exact ends_raise

theorem honest_history (hgz : int (text "gz") = none) (runs : List (Run × Nat))
    (hfair : ∀ r ∈ runs.map (·.1), r.Fair toml readers sha) :
    Honest toml readers sha tar (runs.map (·.1))
      (history (main toml int readers sha tar) World.empty runs) := by
  have hempty : Covers World.empty := by
    intro n hn
    cases hn
  refine (@history_induction _ _ _ (main toml int readers sha tar) (fun past w =>
    (∀ r ∈ past, r.Fair toml readers sha) → Covers w ∧ Honest toml readers sha tar past w)
    World.empty ?_ ?_ runs hfair).2
  · exact fun _ => ⟨hempty, fun s hs => by cases hs⟩
  · intro past r w h n hall
    obtain ⟨hcovers, honest⟩ := h fun r hr => hall r (List.mem_append_left _ hr)
    refine safe_main (I := fun w => Covers w ∧ Honest toml readers sha tar (past ++ [r]) w) hgz
      (hall r (by simp)) ?_ ?_ hcovers ?_ n
    · exact fun w hw hunfinished => ⟨hw, fun s hs hpass =>
        absurd (hpass.symm.trans (hunfinished s hs)) Bool.noConfusion⟩
    · intro s w hw hs hcomplete
      refine ⟨hw, fun s' hs' _ => ⟨r, by simp, ?_⟩⟩
      cases hs.symm.trans hs'
      exact hcomplete
    · refine ⟨hcovers, fun s hs hpass => ?_⟩
      obtain ⟨r', hr', hcomplete⟩ := honest s hs hpass
      exact ⟨r', List.mem_append_left _ hr', hcomplete⟩

/-- Over any history of builds that stop anywhere and start again, with or
without `--resume`: a record that says `pass` lists the packages of the matrix,
has the digest of the archive that lies there for each of them, made by this
build or found beside a directory whose inputs are unchanged, and there is no
other archive. Whatever is found, a packager of one of the builds made it under
its name. A build that returns 0 leaves such a record. -/
theorem build_record_honest (hgz : int (text "gz") = none) (runs : List (Run × Nat))
    (hfair : ∀ r ∈ runs.map (·.1), r.Fair toml readers sha) :
    Honest toml readers sha tar (runs.map (·.1))
        (history (main toml int readers sha tar) World.empty runs) ∧
      Sourced readers sha (runs.map (·.1))
        (history (main toml int readers sha tar) World.empty runs) ∧
      ∀ r w, Ends (fun w => ∃ s, w.result = .whole s ∧ s.pass = true)
        (main toml int readers sha tar r) w := by
  refine ⟨honest_history hgz runs hfair, sourced_history runs, ?_⟩
  exact fun r w => ends_main

end

/-! ## A build that is stopped and resumed -/

def digits (t : Text) : Option Int := (Python.int t).map Int.ofNat

def tinyBuild (resume : Bool) : Run where
  tree := Release.builtTree
  resume := resume
  jobs := 8
  buildRoot := text "/work"
  dist := text "/dist"
  configure _ := true
  make _ _ := ⟨some (tinyRun Release.builtTree 100), 0⟩

/-- The first build is stopped behind the archive, before its digest is saved. -/
def tinyBuilds : List (Run × Nat) := [(tinyBuild false, 20), (tinyBuild true, 100)]

/-- A digest that counts files. -/
def countFiles (c : Content) : Hash := [c.files.length]

def passing (w : World) : Bool :=
  match w.result with
  | .whole s => s.pass && s.packages.all (·.reused)
  | _ => false

theorem matrix_builtTree :
    matrix Release.onePreset Release.builtTree = some [Release.onePackage] := by decide +kernel

theorem tinyBuild_fair (resume : Bool) :
    (tinyBuild resume).Fair Release.onePreset tinyReaders Release.plainSha where
  distinct packages h := by
    cases matrix_builtTree.symm.trans h
    exact List.nodup_singleton _
  named packages h a ha := by
    cases matrix_builtTree.symm.trans h
    cases List.mem_singleton.mp ha
    rintro packager p hpackager hp
    cases hpackager
    have hname : ((tinyRun Release.builtTree 100).package tinyReaders
        Release.plainSha).toOption.map (·.name) = some Release.onePackage.name := by decide +kernel
    rw [hp] at hname
    exact Option.some.inj hname

theorem build_record_honest_resumed :
    ∃ s r, (history (main Release.onePreset digits tinyReaders Release.plainSha countFiles)
        World.empty tinyBuilds).result = .whole s ∧ s.pass = true ∧
      Complete Release.onePreset tinyReaders Release.plainSha countFiles r s
        (history (main Release.onePreset digits tinyReaders Release.plainSha countFiles)
          World.empty tinyBuilds) := by
  have hpassing : passing (history (main Release.onePreset digits tinyReaders Release.plainSha
      countFiles) World.empty tinyBuilds) = true := by decide +kernel
  have hfair : ∀ r ∈ tinyBuilds.map (·.1),
      r.Fair Release.onePreset tinyReaders Release.plainSha := by
    intro r hr
    simp only [tinyBuilds, List.map_cons, List.map_nil, List.mem_cons, List.not_mem_nil,
      or_false] at hr
    obtain rfl | rfl := hr
    · exact tinyBuild_fair false
    · exact tinyBuild_fair true
  have honest := (@build_record_honest Release.onePreset digits tinyReaders Release.plainSha
    countFiles (by decide +kernel) tinyBuilds hfair).1
  generalize history (main Release.onePreset digits tinyReaders Release.plainSha countFiles)
    World.empty tinyBuilds = w at hpassing honest
  unfold passing at hpassing
  split at hpassing
  · rename_i s hs
    have hpass : s.pass = true := (Bool.and_eq_true_iff.mp hpassing).1
    obtain ⟨r, _, hcomplete⟩ := honest s hs hpass
    exact ⟨s, r, hs, hpass, hcomplete⟩
  · cases hpassing

end LinuxBuild.BuildRelease
