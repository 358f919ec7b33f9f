import Mathlib.Data.Finset.Basic
import LinuxBuild.Monitor

/-!
# Programs that give back what they take

Some calls hand out a handle, some work on one and some give one back. A
program keeps to the discipline if it works on handles it holds only, gives
back handles it holds only, never one of the pinned ones, and returns holding
what it held before (`Releases`). A reply can also put a program where it must
not return at all, as in the child of a fork (`Abandons`).
-/

namespace LinuxBuild.Interaction

/-- What the calls do with handles. -/
structure Handles (γ ρ ι : Type) where
  uses : γ → List ι
  gets : γ → ρ → Option ι
  drops : γ → Option ι
  strays : γ → ρ → Bool
  pinned : Finset ι

/-- The handles held, and whether some reply led astray. -/
structure Held (ι : Type) where
  handles : Finset ι
  strayed : Bool
  deriving DecidableEq

variable {γ ρ σ ι α β : Type} [DecidableEq ι]

/-- How often a handle is held: once or not at all. -/
def Held.times (s : Held ι) (h : ι) : Nat := if h ∈ s.handles then 1 else 0

/-- The handles of a stack, held besides others. -/
def stacked (hs : List ι) (held : Finset ι) : Finset ι := hs.foldr insert held

/-- No handle of the stack is held below it. -/
def Fresh : List ι → Finset ι → Prop
  | [], _ => True
  | h :: hs, held => h ∉ stacked hs held ∧ Fresh hs held

@[simp] theorem stacked_nil (held : Finset ι) : stacked [] held = held := rfl

@[simp] theorem stacked_cons (h : ι) (hs : List ι) (held : Finset ι) :
    stacked (h :: hs) held = insert h (stacked hs held) := rfl

theorem stacked_append (hs hs' : List ι) (held : Finset ι) :
    stacked (hs ++ hs') held = stacked hs (stacked hs' held) := List.foldr_append

theorem stacked_mono {held held' : Finset ι} (h : held ⊆ held') (hs : List ι) :
    stacked hs held ⊆ stacked hs held' := by
  induction hs with
  | nil => exact h
  | cons x hs ih => exact Finset.insert_subset_insert x ih

theorem subset_stacked (hs : List ι) (held : Finset ι) : held ⊆ stacked hs held := by
  induction hs with
  | nil => exact Finset.Subset.refl _
  | cons x hs ih => exact ih.trans (Finset.subset_insert x _)

theorem fresh_append {hs hs' : List ι} {held : Finset ι} :
    Fresh (hs ++ hs') held ↔ Fresh hs (stacked hs' held) ∧ Fresh hs' held := by
  induction hs with
  | nil => simp [Fresh]
  | cons x hs ih => simp only [List.cons_append, Fresh, ih, stacked_append, and_assoc]

namespace Handles

variable (d : Handles γ ρ ι)

/-- A handle handed out is not one that is held. -/
def monitor : Monitor γ ρ (Held ι) where
  may s c r := ∀ h, d.gets c r = some h → h ∉ s.handles
  must s c := (∀ h ∈ d.uses c, h ∈ s.handles) ∧
    ∀ h, d.drops c = some h → h ∈ s.handles ∧ h ∉ d.pinned
  next s c r :=
    let left := match d.drops c with
      | some h => s.handles.erase h
      | none => s.handles
    { handles := match d.gets c r with
        | some h => insert h left
        | none => left
      strayed := s.strayed || d.strays c r }

instance (s : Held ι) : (t : Trace γ ρ) → Decidable (d.monitor.Follows s t)
  | [] => .isTrue trivial
  | e :: t =>
    have : Decidable (d.monitor.may s e.1 e.2) :=
      decidable_of_iff (∀ h ∈ d.gets e.1 e.2, h ∉ s.handles) Iff.rfl
    have := instDecidableFollowsHeldMonitor (d.monitor.next s e.1 e.2) t
    inferInstanceAs (Decidable (_ ∧ _))

/-- Started with the stack above what is held, the program returns holding
`out` of its result instead; besides the stack it works on handles of `use`. -/
def Manages (use : Finset ι) (hs : List ι) (out : α → Option ι) (p : Prog γ ρ α) : Prop :=
  ∀ s : Held ι, use ⊆ s.handles → Fresh hs s.handles →
    Meets d.monitor p { s with handles := stacked hs s.handles } fun a s' =>
      Fresh (out a).toList s.handles ∧ s' = { s with handles := stacked (out a).toList s.handles }

/-- The program gives the stack back. -/
def Releases (use : Finset ι) (hs : List ι) (p : Prog γ ρ α) : Prop :=
  d.Manages use hs (fun _ => none) p

/-- The program never returns. -/
def Abandons (use : Finset ι) (p : Prog γ ρ α) : Prop :=
  ∀ s : Held ι, use ⊆ s.handles → Meets d.monitor p s fun _ _ => False

/-- A call that hands out nothing, gives nothing back and works on `use` only. -/
structure Plain (use : Finset ι) (c : γ) : Prop where
  uses : ∀ h ∈ d.uses c, h ∈ use
  gets : ∀ r, d.gets c r = none
  drops : d.drops c = none

variable {d} {use : Finset ι} {hs hs' : List ι} {out : α → Option ι}

theorem Plain.next {c : γ} (hc : d.Plain use c) (s : Held ι) (r : ρ) :
    d.monitor.next s c r = { s with strayed := s.strayed || d.strays c r } := by
  simp only [monitor, hc.gets, hc.drops]

theorem Plain.must {c : γ} (hc : d.Plain use c) {s : Held ι} (hs : use ⊆ s.handles) :
    d.monitor.must s c :=
  ⟨fun h hu => hs (hc.uses h hu), fun h hd => by simp [hc.drops] at hd⟩

theorem manages_ret {a : α} : d.Manages use (out a).toList out (.ret a) :=
  fun _ _ hfresh => .ret ⟨hfresh, rfl⟩

theorem releases_ret {a : α} : d.Releases use [] (.ret a) := fun _ _ hfresh => .ret ⟨hfresh, rfl⟩

theorem manages_bind {out' : β → Option ι} {p : Prog γ ρ β} {f : β → Prog γ ρ α}
    (hp : d.Manages (stacked hs' use) hs out' p)
    (hf : ∀ b, d.Manages use ((out' b).toList ++ hs') out (f b)) :
    d.Manages use (hs ++ hs') out (.bind p f) := by
  intro s hu hfresh
  obtain ⟨hfresh, hfresh'⟩ := fresh_append.mp hfresh
  rw [stacked_append]
  refine .bind ((hp { s with handles := stacked hs' s.handles } (stacked_mono hu hs')
    hfresh).weaken ?_)
  rintro b _ ⟨hb, rfl⟩
  have := hf b s hu (fresh_append.mpr ⟨hb, hfresh'⟩)
  rwa [stacked_append] at this

/-- The first part leaves the stack alone. -/
theorem manages_after {p : Prog γ ρ β} {f : β → Prog γ ρ α} (hp : d.Releases (stacked hs use) [] p)
    (hf : ∀ b, d.Manages use hs out (f b)) : d.Manages use hs out (.bind p f) :=
  show d.Manages use ([] ++ hs) out (.bind p f) from manages_bind hp hf

/-- The first part gives back the top of the stack. -/
theorem manages_pop {h : ι} {p : Prog γ ρ β} {f : β → Prog γ ρ α}
    (hp : d.Releases (stacked hs use) [h] p) (hf : ∀ b, d.Manages use hs out (f b)) :
    d.Manages use (h :: hs) out (.bind p f) :=
  show d.Manages use ([h] ++ hs) out (.bind p f) from manages_bind hp hf

/-- The first part may put a handle on the stack. -/
theorem manages_push {p : Prog γ ρ (Option ι)} {f : Option ι → Prog γ ρ α}
    (hp : d.Manages (stacked hs use) [] id p) (hnone : d.Manages use hs out (f none))
    (hsome : ∀ h, d.Manages use (h :: hs) out (f (some h))) : d.Manages use hs out (.bind p f) := by
  show d.Manages use ([] ++ hs) out (.bind p f)
  apply manages_bind hp
  intro b
  cases b with
  | none => exact hnone
  | some h => exact hsome h

theorem manages_call {c : γ} {next : ρ → Prog γ ρ α} (hc : d.Plain (stacked hs use) c)
    (hstray : ∀ r, d.strays c r = false) (h : ∀ r, d.Manages use hs out (next r)) :
    d.Manages use hs out (.call c next) := by
  intro s hu hfresh
  refine .call (hc.must (stacked_mono hu hs)) fun r _ => ?_
  rw [hc.next]
  simp only [hstray, Bool.or_false]
  exact h r s hu hfresh

/-- The top of the stack is given back. -/
theorem manages_drop {c : γ} {h : ι} {next : ρ → Prog γ ρ α} (hdrop : d.drops c = some h)
    (huses : ∀ x ∈ d.uses c, x = h) (hgets : ∀ r, d.gets c r = none)
    (hstray : ∀ r, d.strays c r = false) (hpinned : d.pinned ⊆ use)
    (hnext : ∀ r, d.Manages use hs out (next r)) :
    d.Manages use (h :: hs) out (.call c next) := by
  intro s hu hfresh
  have hmem : h ∈ stacked (h :: hs) s.handles := Finset.mem_insert_self h _
  refine .call ⟨fun x hx => by rw [huses x hx]; exact hmem, ?_⟩ fun r _ => ?_
  · intro x hx
    rw [hdrop] at hx
    cases hx
    exact ⟨hmem, fun hp => hfresh.1 (subset_stacked hs _ (hu (hpinned hp)))⟩
  · have hnext' : d.monitor.next { s with handles := stacked (h :: hs) s.handles } c r =
        { s with handles := stacked hs s.handles } := by
      simp only [monitor, hgets, hdrop, hstray, Bool.or_false, stacked_cons]
      rw [Finset.erase_insert hfresh.1]
    rw [hnext']
    exact hnext r s hu hfresh.2

/-- A handle handed out comes on top of the stack. -/
theorem manages_get {c : γ} {next : ρ → Prog γ ρ α} (huses : ∀ h ∈ d.uses c, h ∈ stacked hs use)
    (hdrop : d.drops c = none) (hstray : ∀ r, d.strays c r = false)
    (hnext : ∀ r, d.Manages use ((d.gets c r).toList ++ hs) out (next r)) :
    d.Manages use hs out (.call c next) := by
  intro s hu hfresh
  refine .call ⟨fun h hh => stacked_mono hu hs (huses h hh), fun h hh => by simp [hdrop] at hh⟩
    fun r hr => ?_
  have h := hnext r s hu
  cases hg : d.gets c r with
  | none =>
    simp only [hg, Option.toList_none, List.nil_append] at h
    simpa [monitor, hg, hdrop, hstray] using h hfresh
  | some x =>
    simp only [hg, Option.toList_some, List.singleton_append] at h
    simpa [monitor, hg, hdrop, hstray] using h ⟨hr x hg, hfresh⟩

theorem releases_loop {body : σ → Prog γ ρ (σ ⊕ α)} {x : σ}
    (h : ∀ x, d.Releases use [] (body x)) : d.Releases use [] (.loop body x) := by
  intro s hu hfresh
  refine .loop (fun _ s' => s' = s) ?_ rfl
  rintro x s' rfl
  apply (h x s' hu hfresh).weaken
  rintro (y | a) s'' ⟨_, rfl⟩
  · rfl
  · exact ⟨trivial, rfl⟩

/-- Calls that take no handle and give none back, and whose replies lead nowhere. -/
structure Harmless (d : Handles γ ρ ι) (use : Finset ι) (c : γ) : Prop extends d.Plain use c where
  stays : ∀ r, d.strays c r = false

theorem after_of_harmless {t : Trace γ ρ} (h : ∀ e ∈ t, d.Harmless use e.1) (s : Held ι) :
    d.monitor.after s t = s := by
  induction t with
  | nil => rfl
  | cons e t ih =>
    have he := h e List.mem_cons_self
    rw [Monitor.after_cons, he.next, he.stays, Bool.or_false]
    exact ih fun x hx => h x (List.mem_cons_of_mem _ hx)

/-- A program that makes such calls only. -/
theorem releases_of_calls {p : Prog γ ρ α} (h : CallsOnly (d.Harmless use) p) :
    d.Releases use [] p := by
  intro s hu _
  constructor
  · intro t c hm _
    rw [stacked_nil, after_of_harmless (h.of_makes hm)]
    exact (h t c hm).must hu
  · intro t a hr _
    rw [stacked_nil, after_of_harmless (h.of_runs hr)]
    exact ⟨trivial, rfl⟩

/-- The replies that lead astray are never returned from. -/
theorem manages_fork {c : γ} {next : ρ → Prog γ ρ α} (hc : d.Plain (stacked hs use) c)
    (hstray : ∀ r, d.strays c r = true → d.Abandons use (next r))
    (hstay : ∀ r, d.strays c r = false → d.Manages use hs out (next r)) :
    d.Manages use hs out (.bind (.ask c) next) := by
  intro s hu hfresh
  refine .bind (.call (hc.must (stacked_mono hu hs)) fun r _ => .ret ?_)
  rw [hc.next]
  cases hr : d.strays c r with
  | true => exact (hstray r hr _ (hu.trans (subset_stacked hs _))).weaken fun _ _ h => h.elim
  | false =>
    simp only [Bool.or_false]
    exact hstay r hr s hu hfresh

theorem abandons_bind {p : Prog γ ρ β} {f : β → Prog γ ρ α} (hp : d.Releases use [] p)
    (hf : ∀ b, d.Abandons use (f b)) : d.Abandons use (.bind p f) := by
  intro s hu
  refine .bind ((hp s hu trivial).weaken ?_)
  rintro b _ ⟨_, rfl⟩
  exact hf b _ hu

/-- A loop whose turns all go on. -/
theorem abandons_loop {body : σ → Prog γ ρ (σ ⊕ α)} {x : σ} (h : ∀ x, d.Releases use [] (body x))
    (hon : ∀ x {t a}, ¬ Runs (body x) t (.inr a)) : d.Abandons use (.loop body x) := by
  intro s hu
  refine .loop (fun _ s' => s' = s) ?_ rfl
  rintro x s' rfl
  have hm := h x s' hu trivial
  refine ⟨hm.calls, fun {t r} hr hf => ?_⟩
  cases r with
  | inl y => exact (hm.returns hr hf).2
  | inr a => exact (hon x hr).elim

/-! ## What a whole run does -/

def timesGot (d : Handles γ ρ ι) (h : ι) (t : Trace γ ρ) : Nat :=
  t.countP fun e => d.gets e.1 e.2 = some h

def timesDropped (d : Handles γ ρ ι) (h : ι) (t : Trace γ ρ) : Nat :=
  t.countP fun e => d.drops e.1 = some h

/-- What one call does to the count of a handle. -/
theorem times_next {s : Held ι} {c : γ} {r : ρ} (hmay : d.monitor.may s c r)
    (hmust : d.monitor.must s c) (h : ι) :
    (if d.gets c r = some h then 1 else 0) + s.times h =
      (if d.drops c = some h then 1 else 0) + (d.monitor.next s c r).times h := by
  have hmem : h ∈ (d.monitor.next s c r).handles ↔
      d.gets c r = some h ∨ (h ∈ s.handles ∧ d.drops c ≠ some h) := by
    simp only [monitor]
    cases hg : d.gets c r <;> cases hd : d.drops c <;>
      simp [Finset.mem_insert, Finset.mem_erase, eq_comm, and_comm]
  have hget := hmay h
  have hdrop := hmust.2 h
  simp only [Held.times, hmem]
  by_cases hg : d.gets c r = some h
  · have hns := hget hg
    have hnd : d.drops c ≠ some h := fun hd => hns (hdrop hd).1
    simp [hg, hns, hnd]
  · by_cases hd : d.drops c = some h
    · simp [hg, hd, (hdrop hd).1]
    · simp [hg, hd]

/-- Handles are given back as often as they were handed out, but for the
handles held before and after. -/
theorem timesGot_add {s : Held ι} {t : Trace γ ρ} (hf : d.monitor.Follows s t)
    (ho : d.monitor.Obeys s t) (h : ι) :
    d.timesGot h t + s.times h = d.timesDropped h t + (d.monitor.after s t).times h := by
  induction t generalizing s with
  | nil => simp [timesGot, timesDropped]
  | cons e t ih =>
    have hstep := times_next hf.1 ho.1 h
    have hrest := ih hf.2 ho.2
    simp only [timesGot, timesDropped, List.countP_cons, Monitor.after_cons, decide_eq_true_eq]
      at hrest ⊢
    omega

theorem not_strays_of_after {s : Held ι} {t : Trace γ ρ}
    (h : (d.monitor.after s t).strayed = false) : ∀ e ∈ t, d.strays e.1 e.2 = false := by
  induction t generalizing s with
  | nil => simp
  | cons e t ih =>
    have hle : ∀ {s : Held ι} (t : Trace γ ρ), s.strayed = true →
        (d.monitor.after s t).strayed = true := by
      intro s t hs
      induction t generalizing s with
      | nil => exact hs
      | cons e t ih => exact ih (by simp [monitor, hs])
    intro e' he'
    rcases List.mem_cons.mp he' with rfl | he'
    · cases hs : d.strays e'.1 e'.2 with
      | false => rfl
      | true =>
        have := hle t (s := d.monitor.next s e'.1 e'.2) (by simp [monitor, hs])
        rw [Monitor.after_cons, this] at h
        cases h
    · exact ih h e' he'

theorem mem_next {s : Held ι} {c : γ} {r : ρ} {h : ι}
    (hm : h ∈ (d.monitor.next s c r).handles) : h ∈ s.handles ∨ d.gets c r = some h := by
  have hleft : h ∈ (d.monitor.next s c r).handles → d.gets c r ≠ some h → h ∈ s.handles := by
    intro hm hget
    cases hdrop : d.drops c <;> cases hgot : d.gets c r <;>
      simp_all [monitor, eq_comm]
  by_cases hget : d.gets c r = some h
  · exact .inr hget
  · exact .inl (hleft hm hget)

/-- A handle that is held was held before or has been handed out. -/
theorem mem_after {s : Held ι} {t : Trace γ ρ} {h : ι} (hm : h ∈ (d.monitor.after s t).handles) :
    h ∈ s.handles ∨ ∃ e ∈ t, d.gets e.1 e.2 = some h := by
  induction t generalizing s with
  | nil => exact .inl hm
  | cons e t ih =>
    obtain hnext | ⟨e', he', hget⟩ := ih hm
    · exact (mem_next hnext).imp_right fun hget => ⟨e, List.mem_cons_self, hget⟩
    · exact .inr ⟨e', List.mem_cons_of_mem _ he', hget⟩

/-- A program that gives back what it takes leaves everything as it was, gives
back each handle as often as it got it, and does not return once led astray. -/
theorem Releases.run {p : Prog γ ρ α} (hp : d.Releases use [] p) {held : Finset ι}
    (hheld : use ⊆ held) {t : Trace γ ρ} {a : α} (hr : Runs p t a)
    (hf : d.monitor.Follows ⟨held, false⟩ t) :
    d.monitor.after ⟨held, false⟩ t = ⟨held, false⟩ ∧
      (∀ h, d.timesGot h t = d.timesDropped h t) ∧ ∀ e ∈ t, d.strays e.1 e.2 = false := by
  have hm := hp ⟨held, false⟩ hheld trivial
  have hafter := (hm.returns hr hf).2
  simp only [Option.toList_none, stacked_nil] at hafter
  refine ⟨hafter, fun h => ?_, not_strays_of_after (congrArg Held.strayed hafter)⟩
  have hcount := timesGot_add hf (hm.obeys hr hf) h
  rw [hafter] at hcount
  omega

end Handles

end LinuxBuild.Interaction
