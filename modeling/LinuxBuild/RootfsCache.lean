import LinuxBuild.RootfsRun

/-!
# What the cache holds

Every directory under a key is a verified rootfs or lacks a whole file
(`SoundCache`). A later run with nothing else going wrong works exactly on the
first kind: a directory of the second kind is never removed, so it stays in the
way of `copytree`.
-/

namespace LinuxBuild.Rootfs

open Crash

variable {Key : Type}

def Complete (entry : Entry) : Prop := ∀ f, ∃ c, entry f = .whole c

/-- The rootfs of an entry and its manifest, with both digests checked. -/
structure Verified (tools : Tools Key) (k : Key) (entry : Entry) (record : Record) (rootfs : Data)
    (busyboxConfig : Data) : Prop where
  complete : Complete entry
  manifest : entry .manifest = .whole (.record record)
  identity : tools.key record.identity = k
  initramfs : entry .initramfs = .whole (.data rootfs)
  rootfsSha256 : tools.sha.hash rootfs = record.rootfsSha256
  config : entry .busyboxConfig = .whole (.data busyboxConfig)
  configSha256 : tools.sha.hash busyboxConfig = record.busyboxConfigSha256

theorem staged_verified (tools : Tools Key) (r : Request) (e : Externals) (kept : Bool)
    (image : Data) (busyboxConfig : Text) :
    Verified tools (tools.keyOf r) (fun f => .whole (staged r e image busyboxConfig
      (newRecord tools r e kept image busyboxConfig) f))
      (newRecord tools r e kept image busyboxConfig) image (.text busyboxConfig) where
  complete _ := ⟨_, rfl⟩
  manifest := rfl
  identity := rfl
  initramfs := rfl
  rootfsSha256 := rfl
  config := rfl
  configSha256 := rfl

variable [DecidableEq Key]

def SoundEntry (tools : Tools Key) (k : Key) (w : World Key) : Prop :=
  ∀ entry, w.entry k = some entry →
    (∃ record rootfs config, Verified tools k entry record rootfs config) ∨ ¬ Complete entry

def SoundCache (tools : Tools Key) (w : World Key) : Prop := ∀ k, SoundEntry tools k w

/-! ## Directories -/

theorem lookup_pair (k k' : Key) (e : Entry) (entries : List (Key × Entry)) :
    ((k, e) :: entries).lookup k' = if k' = k then some e else entries.lookup k' := by
  by_cases h : k' = k
  · simp [h]
  · have : (k' == k) = false := by simpa using h
    simp only [List.lookup_cons, this, if_neg h]

theorem entry_addEntry (k k' : Key) (w : World Key) :
    (w.addEntry k).entry k' = if k' = k then some Entry.empty else w.entry k' := by
  simp only [World.entry, World.addEntry, lookup_pair]

theorem entry_retire (k k' : Key) (w : World Key) :
    (w.retire k).entry k' = if k' = k then none else w.entry k' := by
  simp only [World.entry, World.retire]
  induction w.entries with
  | nil => simp
  | cons p entries ih =>
    obtain ⟨k'', e⟩ := p
    simp only [List.filter_cons, lookup_pair]
    by_cases hk : k'' = k
    · simp only [hk, ne_eq, not_true_eq_false, decide_false, Bool.false_eq_true, if_false, ih]
      by_cases h : k' = k <;> simp [h]
    · simp only [ne_eq, hk, not_false_eq_true, decide_true, if_true, lookup_pair, ih]
      by_cases h : k' = k'' <;> simp [h, hk]

theorem entry_setEntry (k k' : Key) (f : CacheFile) (file : File) (w : World Key) :
    (w.setEntry k f file).entry k' =
      if k' = k then (w.entry k').map (·.set f file) else w.entry k' := by
  simp only [World.entry, World.setEntry]
  induction w.entries with
  | nil => simp
  | cons p entries ih =>
    obtain ⟨k'', e⟩ := p
    simp only [List.map_cons, lookup_pair, ih]
    by_cases h : k' = k''
    · subst h
      by_cases hk : k' = k <;> simp [hk]
    · simp only [if_neg h]

theorem soundEntry_congr {tools : Tools Key} {k : Key} {w w' : World Key}
    (h : w'.entry k = w.entry k) (hs : SoundEntry tools k w) : SoundEntry tools k w' := by
  intro entry he
  exact hs entry (h ▸ he)

theorem soundCache_congr {tools : Tools Key} {w w' : World Key} (h : w'.entries = w.entries)
    (hs : SoundCache tools w) : SoundCache tools w' :=
  fun k => soundEntry_congr (by rw [World.entry, World.entry, h]) (hs k)

theorem soundCache_retire {tools : Tools Key} {k : Key} {w : World Key} (h : SoundCache tools w) :
    SoundCache tools (w.retire k) := by
  intro k' entry he
  rw [entry_retire] at he
  split at he
  · cases he
  · exact h k' entry he

/-! ## The copy into the cache -/

/-- The directory being filled: what is whole in it is what was staged. -/
structure Filling (tools : Tools Key) (k : Key) (files : CacheFile → Content) (w : World Key) :
    Prop where
  others : ∀ k', k' ≠ k → SoundEntry tools k' w
  entry : ∃ entry, w.entry k = some entry ∧ ∀ f c, entry f = .whole c → c = files f

theorem Filling.sound {tools : Tools Key} {k : Key} {files : CacheFile → Content} {w : World Key}
    {record : Record} {rootfs config : Data}
    (hfiles : Verified tools k (fun f => .whole (files f)) record rootfs config)
    (h : Filling tools k files w) : SoundCache tools w := by
  intro k'
  by_cases hk : k' = k
  · subst hk
    obtain ⟨entry, he, hwhole⟩ := h.entry
    intro entry' he'
    rw [he] at he'
    cases he'
    by_cases hc : Complete entry
    · have heq : entry = fun f => .whole (files f) := by
        funext f
        obtain ⟨c, hcf⟩ := hc f
        rw [hcf, hwhole f c hcf]
      exact .inl ⟨record, rootfs, config, heq ▸ hfiles⟩
    · exact .inr hc
  · exact h.others k' hk

theorem filling_congr {tools : Tools Key} {k : Key} {files : CacheFile → Content}
    {w w' : World Key} (h : w'.entries = w.entries) (hw : Filling tools k files w) :
    Filling tools k files w' where
  others k' hk := soundEntry_congr (by rw [World.entry, World.entry, h]) (hw.others k' hk)
  entry := by rw [World.entry, h]; exact hw.entry

theorem filling_setEntry {tools : Tools Key} {k : Key} {files : CacheFile → Content}
    {w : World Key} {f : CacheFile} {file : File} (h : Filling tools k files w)
    (hf : ∀ c, file = .whole c → c = files f) :
    Filling tools k files (w.setEntry k f file) where
  others k' hk := soundEntry_congr (by rw [entry_setEntry, if_neg hk]) (h.others k' hk)
  entry := by
    obtain ⟨entry, he, hwhole⟩ := h.entry
    refine ⟨entry.set f file, by rw [entry_setEntry, if_pos rfl, he]; rfl, fun g c hg => ?_⟩
    simp only [Entry.set] at hg
    split at hg
    · rename_i hgf
      exact hgf ▸ hf c hg
    · exact hwhole g c hg

theorem filling_addEntry {tools : Tools Key} {k : Key} {files : CacheFile → Content}
    {w : World Key} (h : SoundCache tools w) : Filling tools k files (w.addEntry k) where
  others k' hk := soundEntry_congr (by rw [entry_addEntry, if_neg hk]) (h k')
  entry := ⟨Entry.empty, by rw [entry_addEntry, if_pos rfl], fun f c hf => by cases hf⟩

theorem filling_writing {tools : Tools Key} {k : Key} {files : CacheFile → Content} {cut : Nat}
    {g : CacheFile} : ∀ f ∈ writing (World.setEntry k g) cut (files g), ∀ w : World Key,
      Filling tools k files w → Filling tools k files (f w) := by
  intro f hf w hw
  obtain ⟨file, rfl, hfile⟩ := mem_writing hf
  exact filling_setEntry hw hfile

theorem safe_copytree_cache (tools : Tools Key) (r : Request) (e : Externals) (kept : Bool)
    (image : Data) (busyboxConfig : Text) (a : World Key) (ha : SoundCache tools a) :
    Safe (SoundCache tools) (copytree tools r e (staged r e image busyboxConfig
      (newRecord tools r e kept image busyboxConfig))) a := by
  have hfiles := staged_verified tools r e kept image busyboxConfig
  apply safe_ask
  split
  · exact safe_act ha (safe_raise (soundCache_congr rfl ha))
  · apply safe_act ha
    refine Safe.mono ?_ fun s hs => Filling.sound hfiles hs
    apply safe_acts (filling_addEntry ha)
    · intro f hf b hb
      obtain ⟨g, _, hg⟩ := List.mem_flatMap.mp hf
      exact filling_writing f hg b hb
    · intro b hb
      have hdrop := filling_congr (show b.dropStaging.entries = b.entries from rfl) hb
      apply safe_act hb
      apply safe_acts hdrop
      · intro f hf c hc
        exact filling_congr (aside_writing (aside_setManifest _) _ _ f hf c).2.2 hc
      · intro c hc
        exact safe_done hc

theorem runRule_cache {tools : Tools Key} {r : Request} {w : World Key} (h : SoundCache tools w) :
    RunRule tools r w (SoundCache tools) fun _ => SoundCache tools where
  start := h
  weaken _ _ ha := ha
  aside _ hf a ha := soundCache_congr (hf a).2.2 ha
  aside' _ _ hf a ha := soundCache_congr (hf a).2.2 ha
  retire _ ha := soundCache_retire ha
  dropImage _ ha := soundCache_congr rfl ha
  emptied _ ha := soundCache_congr rfl ha
  unstamp _ ha := soundCache_congr rfl ha
  kept _ ha _ _ _ := soundCache_congr rfl ha
  cleaned _ ha _ := soundCache_congr rfl ha
  beginBuild _ _ ha := soundCache_congr rfl ha
  setImage _ _ _ ha := soundCache_congr rfl ha
  addRecord _ _ ha := soundCache_congr rfl ha
  copytree kept e image config a ha := safe_copytree_cache tools r e kept image config a ha

theorem history_sound {tools : Tools Key} {runs : List Run} {w : World Key}
    (h : SoundCache tools w) : SoundCache tools (history tools runs w) := by
  induction runs generalizing w with
  | nil => exact h
  | cons run runs ih => exact ih ((runRule_cache h).after _ _ _)

end LinuxBuild.Rootfs
