import LinuxBuild.EnsureRootfs

/-!
# A run of `ensure-rootfs.py`, act by act

`RunRule` lists what a property has to survive for a whole run to keep it,
wherever the run stops.
-/

namespace LinuxBuild.Rootfs

open Crash

variable {Key : Type}

/-- Writing puts parts of the content and last the content. -/
theorem mem_writing {put : File → World Key → World Key} {cut : Nat} {c : Content}
    {f : World Key → World Key} (h : f ∈ writing put cut c) :
    ∃ file, f = put file ∧ ∀ d, file = .whole d → d = c := by
  simp only [writing, List.mem_append, List.mem_map, List.mem_singleton] at h
  obtain ⟨part, _, rfl⟩ | rfl := h
  · exact ⟨.torn part, rfl, by simp⟩
  · exact ⟨.whole c, rfl, by simp⟩

/-- Acts on the published files and the staging directory only. -/
def Aside (f : World Key → World Key) : Prop :=
  ∀ w, (f w).trees = w.trees ∧ (f w).records = w.records ∧ (f w).entries = w.entries

theorem aside_writing {put : File → World Key → World Key} (h : ∀ file, Aside (put file))
    (cut : Nat) (c : Content) : ∀ f ∈ writing put cut c, Aside f := by
  intro f hf
  obtain ⟨file, rfl, _⟩ := mem_writing hf
  exact h file

theorem aside_stamping {put : Hash → World Key → World Key} (h : ∀ hash, Aside (put hash))
    (hash : Hash) : ∀ f ∈ stamping put hash, Aside f := by
  intro f hf
  simp only [stamping, List.mem_cons, List.not_mem_nil, or_false] at hf
  obtain rfl | rfl := hf
  · exact h _
  · exact h _

theorem aside_setOutput (bits : Word) (file : File) :
    Aside (World.setOutput bits file : World Key → World Key) := fun _ => ⟨rfl, rfl, rfl⟩

theorem aside_setLegacyStamp (bits : Word) (h : Hash) :
    Aside (World.setLegacyStamp bits h : World Key → World Key) := fun _ => ⟨rfl, rfl, rfl⟩

theorem aside_setManifest (bits : Word) (file : File) :
    Aside (World.setManifest bits file : World Key → World Key) := fun _ => ⟨rfl, rfl, rfl⟩

theorem aside_addStaging : Aside (World.addStaging : World Key → World Key) :=
  fun _ => ⟨rfl, rfl, rfl⟩

theorem aside_setStaging (f : CacheFile) (file : File) :
    Aside (World.setStaging f file : World Key → World Key) := fun _ => ⟨rfl, rfl, rfl⟩

theorem aside_dropStaging : Aside (World.dropStaging : World Key → World Key) :=
  fun _ => ⟨rfl, rfl, rfl⟩

theorem safe_runMake {K : World Key → Prop} {stops : Option Nat} {fs : List (World Key → World Key)}
    {next : Prog (World Key) Failure} {a : World Key} (ha : K a)
    (hfs : ∀ f ∈ fs, ∀ a, K a → K (f a)) (hnext : ∀ b, K b → Safe K next b) :
    Safe K (runMake stops fs next) a := by
  unfold runMake
  split
  · exact safe_acts ha hfs hnext
  · exact safe_acts ha (fun f hf => hfs f (List.mem_of_mem_take hf)) fun b hb => safe_raise hb

variable [DecidableEq Key]

/-- `I` holds until the stamp is written, `J` from there on; `J` is told
whether the tree was kept. -/
structure RunRule (tools : Tools Key) (r : Request) (w : World Key)
    (I : World Key → Prop) (J : Bool → World Key → Prop) : Prop where
  start : I w
  weaken : ∀ kept a, J kept a → I a
  aside : ∀ f, Aside f → ∀ a, I a → I (f a)
  aside' : ∀ kept f, Aside f → ∀ a, J kept a → J kept (f a)
  retire : ∀ a, I a → I (a.retire (tools.keyOf r))
  dropImage : ∀ a, I a → I (dropImage r.bits a)
  emptied : ∀ a, I a → I (emptied r.bits a)
  unstamp : ∀ a, I a → I (a.setStamp r.bits [])
  kept : ∀ a, I a → a = settled tools r w → readManifest (tools.keyOf r) a = .missing →
    sameConfig tools r a = true →
    J true ((a.setStamp r.bits []).setStamp r.bits (tools.md5.hash r.fragment))
  cleaned : ∀ a, I a → (a.trees r.bits).builds = [] →
    J false ((a.setStamp r.bits []).setStamp r.bits (tools.md5.hash r.fragment))
  beginBuild : ∀ kept a, J kept a → J kept (beginBuild r a)
  setImage : ∀ kept image a, J kept a → J kept (setImage r.bits image a)
  addRecord : ∀ kept a, J kept a → J kept (addRecord r kept a)
  copytree : ∀ kept e image busyboxConfig a, J kept a →
    Safe (J kept) (copytree tools r e (staged r e image busyboxConfig
      (newRecord tools r e kept image busyboxConfig))) a

namespace RunRule

variable {tools : Tools Key} {r : Request} {w : World Key} {I : World Key → Prop}
  {J : Bool → World Key → Prop}

theorem safe_checkBuild (h : RunRule tools r w I J) {kept : Bool} (e : Externals) (a : World Key)
    (ha : J kept a) : Safe (J kept) (checkBuild tools r e kept) a := by
  unfold checkBuild
  split
  · simp only
    split
    · exact safe_raise ha
    · apply safe_ask
      split
      · have hrecord := h.addRecord kept a ha
        apply safe_act ha
        apply safe_act hrecord
        apply safe_acts
        · exact h.aside' kept _ aside_addStaging _ hrecord
        · intro f hf b hb
          obtain ⟨g, _, hg⟩ := List.mem_flatMap.mp hf
          exact h.aside' kept f (aside_writing (aside_setStaging _) _ _ f hg) b hb
        · intro b hb
          exact h.copytree kept e _ _ b hb
      · exact safe_raise ha
  · exact safe_raise ha

theorem keeps_buildActs (h : RunRule tools r w I J) {kept : Bool} (e : Externals) :
    ∀ f ∈ buildActs tools r e, ∀ a, J kept a → J kept (f a) := by
  intro f hf a ha
  simp only [buildActs, List.mem_append, List.mem_cons, List.not_mem_nil, or_false] at hf
  obtain ((rfl | rfl) | hf) | hf := hf
  · exact h.beginBuild kept a ha
  · exact h.setImage kept _ a ha
  · exact h.aside' kept f (aside_writing (aside_setOutput _) _ _ f hf) a ha
  · exact h.aside' kept f (aside_stamping (aside_setLegacyStamp _) _ f hf) a ha

theorem safe_build (h : RunRule tools r w I J) {kept : Bool} (e : Externals) (a : World Key)
    (ha : I a) (hj : J kept
      ((a.setStamp r.bits []).setStamp r.bits (tools.md5.hash r.fragment))) :
    Safe I (build tools r e kept) a := by
  apply safe_act ha
  apply safe_act (h.unstamp a ha)
  refine Safe.mono ?_ (h.weaken kept)
  exact safe_runMake hj (h.keeps_buildActs e) fun b hb => h.safe_checkBuild e b hb

theorem safe_rebuild (h : RunRule tools r w I J) (e : Externals) (a : World Key) (ha : I a)
    (hs : a = settled tools r w) (hm : readManifest (tools.keyOf r) a = .missing) :
    Safe I (rebuild tools r e) a := by
  apply safe_ask
  split
  · rename_i hsame
    exact h.safe_build e a ha (h.kept a ha hs hm hsame)
  · have hfs : ∀ f ∈ [LinuxBuild.Rootfs.dropImage r.bits, LinuxBuild.Rootfs.emptied r.bits],
        ∀ a : World Key, I a → I (f a) := by
      intro f hf a ha
      simp only [List.mem_cons, List.not_mem_nil, or_false] at hf
      obtain rfl | rfl := hf
      · exact h.dropImage a ha
      · exact h.emptied a ha
    unfold runMake
    split
    · apply safe_act ha
      apply safe_act (h.dropImage a ha)
      have hclean := h.emptied _ (h.dropImage a ha)
      refine h.safe_build e _ hclean (h.cleaned _ hclean ?_)
      simp [LinuxBuild.Rootfs.emptied, World.setTree]
    · exact safe_acts ha (fun f hf => hfs f (List.mem_of_mem_take hf)) fun b hb => safe_raise hb

theorem safe_useCache (h : RunRule tools r w I J) (e : Externals) (record : Record) (a : World Key)
    (ha : I a) : Safe I (useCache tools r e record) a := by
  have hacts : ∀ rootfs, Safe I (acts (writing (World.setOutput r.bits) e.cut rootfs ++
      stamping (World.setLegacyStamp r.bits) (tools.md5.hash r.fragment) ++
      writing (World.setManifest r.bits) e.cut (.record record)) .done :
      Prog (World Key) Failure) a := by
    intro rootfs
    apply safe_acts ha
    · intro f hf b hb
      simp only [List.mem_append] at hf
      obtain (hf | hf) | hf := hf
      · exact h.aside f (aside_writing (aside_setOutput _) _ _ f hf) b hb
      · exact h.aside f (aside_stamping (aside_setLegacyStamp _) _ f hf) b hb
      · exact h.aside f (aside_writing (aside_setManifest _) _ _ f hf) b hb
    · intro b hb
      exact safe_done hb
  apply safe_ask
  split
  · exact safe_raise ha
  · split
    · exact safe_raise ha
    · split
      · split
        · exact safe_raise ha
        · split
          · exact safe_raise ha
          · split
            · exact safe_raise ha
            · exact hacts _
      · exact safe_raise ha

theorem safe_lookupCache (h : RunRule tools r w I J) (e : Externals) (a : World Key) (ha : I a)
    (hs : a = settled tools r w) : Safe I (lookupCache tools r e) a := by
  apply safe_ask
  split
  · exact safe_raise ha
  · exact h.safe_useCache e _ a ha
  · rename_i hm
    exact h.safe_rebuild e a ha hs hm

/-- The whole run keeps the property. -/
theorem safe_ensure (h : RunRule tools r w I J) (e : Externals) :
    Safe I (ensure tools r e) w := by
  apply safe_ask
  cases hm : readManifest (tools.keyOf r) w with
  | unreadable => exact safe_raise h.start
  | missing => exact h.safe_lookupCache e w h.start (by simp only [settled, hm])
  | record prior =>
    simp only
    split
    · rename_i hu
      apply safe_act h.start
      apply h.safe_lookupCache e _ (h.retire w h.start)
      simp only [settled, hm, hu, if_true]
    · rename_i hu
      apply h.safe_lookupCache e w h.start
      simp only [settled, hm, hu]
      rfl

/-- Whatever leaves the run, a signal or its end. -/
theorem after (h : RunRule tools r w I J) (e : Externals) (stop : Nat) (unwinds : Bool) :
    I (Run.after tools ⟨r, e, stop, unwinds⟩ w) := by
  have hsafe := h.safe_ensure e stop
  unfold Run.after
  simp only
  split
  · exact h.aside _ aside_dropStaging _ hsafe
  · exact hsafe

end RunRule

/-- A run to the end is one that is stopped late enough. -/
theorem exists_after_eq_run (tools : Tools Key) (r : Request) (e : Externals) (w : World Key) :
    ∃ stop, Run.after tools ⟨r, e, stop, false⟩ w = (run (ensure tools r e) w).2 := by
  obtain ⟨stop, hstop⟩ := exists_stopped_eq_run (ensure tools r e) w
  exact ⟨stop, by simp [Run.after, hstop]⟩

end LinuxBuild.Rootfs
