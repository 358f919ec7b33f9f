import LinuxBuild.Interaction

/-!
# What a program may rely on and must do

A monitor follows a run with a state of its own: `may` is what the environment
may answer in a state, `must` what the program is held to when it makes a call.
`Meets` is the specification of a program over a monitor, for the calls of all
runs and for the state in which it returns, with one rule for each way a
program is built.
-/

namespace LinuxBuild.Interaction

structure Monitor (γ ρ σ : Type) where
  may : σ → γ → ρ → Prop
  must : σ → γ → Prop
  next : σ → γ → ρ → σ

variable {γ ρ σ τ α β : Type}

namespace Monitor

def after (m : Monitor γ ρ σ) (s : σ) (t : Trace γ ρ) : σ :=
  t.foldl (fun s e => m.next s e.1 e.2) s

/-- Every reply of the trace is one the environment may give. -/
def Follows (m : Monitor γ ρ σ) : σ → Trace γ ρ → Prop
  | _, [] => True
  | s, e :: t => m.may s e.1 e.2 ∧ m.Follows (m.next s e.1 e.2) t

/-- Every call of the trace is one the program is allowed. -/
def Obeys (m : Monitor γ ρ σ) : σ → Trace γ ρ → Prop
  | _, [] => True
  | s, e :: t => m.must s e.1 ∧ m.Obeys (m.next s e.1 e.2) t

variable {m : Monitor γ ρ σ} {s : σ}

@[simp] theorem after_nil : m.after s [] = s := rfl

@[simp] theorem after_cons {e : γ × ρ} {t : Trace γ ρ} :
    m.after s (e :: t) = m.after (m.next s e.1 e.2) t := rfl

@[simp] theorem after_append {t u : Trace γ ρ} : m.after s (t ++ u) = m.after (m.after s t) u :=
  List.foldl_append

theorem follows_append {t u : Trace γ ρ} :
    m.Follows s (t ++ u) ↔ m.Follows s t ∧ m.Follows (m.after s t) u := by
  induction t generalizing s with
  | nil => simp [Follows]
  | cons e t ih => simp only [List.cons_append, Follows, ih, after_cons, and_assoc]

theorem obeys_of_forall {t : Trace γ ρ}
    (h : ∀ u e v, t = u ++ e :: v → m.must (m.after s u) e.1) : m.Obeys s t := by
  induction t generalizing s with
  | nil => trivial
  | cons e t ih =>
    refine ⟨h [] e t rfl, ih fun u e' v ht => ?_⟩
    exact h (e :: u) e' v (by rw [ht, List.cons_append])

end Monitor

/-- From state `s`, while the environment keeps to `may`, every call of `p` is
one that `must` allows, and `post` holds when `p` returns. -/
structure Meets (m : Monitor γ ρ σ) (p : Prog γ ρ α) (s : σ) (post : α → σ → Prop) : Prop where
  calls : ∀ {t c}, Makes p t c → m.Follows s t → m.must (m.after s t) c
  returns : ∀ {t a}, Runs p t a → m.Follows s t → post a (m.after s t)

namespace Meets

variable {m : Monitor γ ρ σ} {s : σ}

theorem ret {post : α → σ → Prop} {a : α} (h : post a s) : Meets m (.ret a) s post where
  calls h := by cases h
  returns hr _ := by
    cases hr
    exact h

theorem call {post : α → σ → Prop} {c : γ} {next : ρ → Prog γ ρ α} (hc : m.must s c)
    (h : ∀ r, m.may s c r → Meets m (next r) (m.next s c r) post) :
    Meets m (.call c next) s post where
  calls hm hf := by
    cases hm with
    | call => exact hc
    | reply rest => exact (h _ hf.1).calls rest hf.2
  returns hr hf := by
    cases hr with
    | call rest => exact (h _ hf.1).returns rest hf.2

theorem bind {post : α → σ → Prop} {p : Prog γ ρ β} {f : β → Prog γ ρ α}
    (h : Meets m p s fun b s' => Meets m (f b) s' post) : Meets m (.bind p f) s post where
  calls hm hf := by
    cases hm with
    | first first => exact h.calls first hf
    | second first rest =>
      obtain ⟨hft, hfu⟩ := Monitor.follows_append.mp hf
      rw [Monitor.after_append]
      exact (h.returns first hft).calls rest hfu
  returns hr hf := by
    cases hr with
    | bind first rest =>
      obtain ⟨hft, hfu⟩ := Monitor.follows_append.mp hf
      rw [Monitor.after_append]
      exact (h.returns first hft).returns rest hfu

theorem weaken {post post' : α → σ → Prop} {p : Prog γ ρ α} (h : Meets m p s post)
    (hpost : ∀ a s, post a s → post' a s) : Meets m p s post' where
  calls := h.calls
  returns hr hf := hpost _ _ (h.returns hr hf)

/-- What holds of every turn that goes on with `x` is carried by `inv`. -/
theorem loop {post : α → σ → Prop} {body : τ → Prog γ ρ (τ ⊕ α)} (inv : τ → σ → Prop)
    (hbody : ∀ x s, inv x s → Meets m (body x) s fun r s' =>
      match r with
      | .inl y => inv y s'
      | .inr a => post a s')
    {x : τ} (h : inv x s) : Meets m (.loop body x) s post where
  calls hm hf := by
    refine makes_induction (motive := fun x t c => ∀ s, inv x s → m.Follows s t →
      m.must (m.after s t) c) ?_ ?_ hm s h hf
    · intro x t c turn s h hf
      exact (hbody _ _ h).calls turn hf
    · intro x y t u c turn ih s h hf
      obtain ⟨hft, hfu⟩ := Monitor.follows_append.mp hf
      rw [Monitor.after_append]
      exact ih _ ((hbody _ _ h).returns turn hft) hfu
  returns hr hf := by
    refine loop_induction (motive := fun x t a => ∀ s, inv x s → m.Follows s t →
      post a (m.after s t)) ?_ ?_ hr s h hf
    · intro x t a turn s h hf
      exact (hbody _ _ h).returns turn hf
    · intro x y t u a turn _ ih s h hf
      obtain ⟨hft, hfu⟩ := Monitor.follows_append.mp hf
      rw [Monitor.after_append]
      exact ih _ ((hbody _ _ h).returns turn hft) hfu

theorem obeys {post : α → σ → Prop} {p : Prog γ ρ α} (h : Meets m p s post) {t : Trace γ ρ}
    {a : α} (hr : Runs p t a) (hf : m.Follows s t) : m.Obeys s t := by
  apply Monitor.obeys_of_forall
  rintro u ⟨c, r⟩ v rfl
  exact h.calls (hr.makes rfl) (Monitor.follows_append.mp hf).1

end Meets

end LinuxBuild.Interaction
