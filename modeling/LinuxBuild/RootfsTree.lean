import LinuxBuild.RootfsRun

/-!
# What the Buildroot tree holds

Few acts of a run touch the tree: the clean, the stamp, and the build. A
property of the trees and records (`TreeRule`) is kept by a whole run once
those keep it.
-/

namespace LinuxBuild.Rootfs

open Crash

variable {Key : Type} [DecidableEq Key]

omit [DecidableEq Key] in
/-- What holds of every tree holds after one is changed, if it holds of that one. -/
theorem setTree_forall {p : Tree → Prop} {bits : Word} {f : Tree → Tree} {w : World Key}
    (h : ∀ b, p (w.trees b)) (hf : p (f (w.trees bits))) (b : Word) :
    p ((w.setTree bits f).trees b) := by
  simp only [World.setTree]
  split
  · rename_i hb
    exact hb ▸ hf
  · exact h b

/-- The part of `RunRule` that concerns trees and records. -/
structure TreeRule (tools : Tools Key) (r : Request) (w : World Key)
    (I : World Key → Prop) (J : World Key → Prop) : Prop where
  start : I w
  weaken : ∀ a, J a → I a
  beside : ∀ a b, b.trees = a.trees → b.records = a.records → I a → I b
  beside' : ∀ a b, b.trees = a.trees → b.records = a.records → J a → J b
  dropImage : ∀ a, I a → I (dropImage r.bits a)
  emptied : ∀ a, I a → I (emptied r.bits a)
  unstamp : ∀ a, I a → I (a.setStamp r.bits [])
  kept : ∀ a, I a → a = settled tools r w → readManifest (tools.keyOf r) a = .missing →
    sameConfig tools r a = true →
    J ((a.setStamp r.bits []).setStamp r.bits (tools.md5.hash r.fragment))
  cleaned : ∀ a, I a → (a.trees r.bits).builds = [] →
    J ((a.setStamp r.bits []).setStamp r.bits (tools.md5.hash r.fragment))
  beginBuild : ∀ a, J a → J (beginBuild r a)
  setImage : ∀ image a, J a → J (setImage r.bits image a)
  addRecord : ∀ kept a, J a → J (addRecord r kept a)

namespace TreeRule

variable {tools : Tools Key} {r : Request} {w : World Key} {I J : World Key → Prop}

theorem safe_copytree (h : TreeRule tools r w I J) (e : Externals)
    (files : CacheFile → Content) (a : World Key) (ha : J a) :
    Safe J (copytree tools r e files) a := by
  have hdrop : ∀ a, J a → J a.dropStaging := fun a ha => h.beside' a _ rfl rfl ha
  apply safe_ask
  split
  · exact safe_act ha (safe_raise (hdrop a ha))
  · have hadd : J (a.addEntry (tools.keyOf r)) := h.beside' a _ rfl rfl ha
    apply safe_act ha
    apply safe_acts hadd
    · intro f hf b hb
      obtain ⟨g, _, hg⟩ := List.mem_flatMap.mp hf
      obtain ⟨file, rfl, _⟩ := mem_writing hg
      exact h.beside' b _ rfl rfl hb
    · intro b hb
      apply safe_act hb
      apply safe_acts (hdrop b hb)
      · intro f hf c hc
        obtain ⟨ht, hr, _⟩ := aside_writing (aside_setManifest _) _ _ f hf c
        exact h.beside' c _ ht hr hc
      · intro c hc
        exact safe_done hc

theorem runRule (h : TreeRule tools r w I J) : RunRule tools r w I fun _ => J where
  start := h.start
  weaken _ := h.weaken
  aside _ hf a ha := h.beside a _ (hf a).1 (hf a).2.1 ha
  aside' _ _ hf a ha := h.beside' a _ (hf a).1 (hf a).2.1 ha
  retire a ha := h.beside a _ rfl rfl ha
  dropImage := h.dropImage
  emptied := h.emptied
  unstamp := h.unstamp
  kept := h.kept
  cleaned := h.cleaned
  beginBuild _ := h.beginBuild
  setImage _ := h.setImage
  addRecord kept a := h.addRecord kept a
  copytree _ e _ _ := h.safe_copytree e _

end TreeRule

end LinuxBuild.Rootfs
