import LinuxBuild.Interaction

/-!
# What a program shows

An environment that is watched: what it has shown only grows, and a part of its
state is known. `Shows` says of a program that it returns in such an
environment, whatever the rest of the state, and what it has shown by then, with
one rule for each way a program is built.
-/

namespace LinuxBuild.Interaction

structure Watched (γ ρ ε ω σ : Type) where
  answer : ε → γ → ρ × ε
  shown : ε → List ω
  known : ε → σ

namespace Watched

variable {γ ρ ε ω σ τ α β : Type} {k : Watched γ ρ ε ω σ} {s : σ}

/-- From the known state the program returns; its result, what it has shown and
the known state are then related. -/
def Shows (k : Watched γ ρ ε ω σ) (s : σ) (p : Prog γ ρ α) (Q : α → List ω → σ → Prop) : Prop :=
  ∀ e, k.known e = s → ∃ a out e', Yields k.answer e p a e' ∧
    k.shown e' = k.shown e ++ out ∧ Q a out (k.known e')

/-- Every way the environment can run the program ends as stated. -/
theorem Shows.served {p : Prog γ ρ α} {Q : α → List ω → σ → Prop} (h : k.Shows s p Q) {e : ε}
    (he : k.known e = s) : (∃ a e', Yields k.answer e p a e') ∧ ∀ a e', Yields k.answer e p a e' →
      ∃ out, k.shown e' = k.shown e ++ out ∧ Q a out (k.known e') := by
  obtain ⟨a, out, e₁, hrun, hout, hQ⟩ := h e he
  constructor
  · exact ⟨a, e₁, hrun⟩
  · intro b e' hother
    obtain ⟨rfl, rfl⟩ := hrun.unique hother
    exact ⟨out, hout, hQ⟩

theorem shows_ret {a : α} {Q : α → List ω → σ → Prop} (h : Q a [] s) : k.Shows s (.ret a) Q := by
  intro e he
  exact ⟨a, [], e, .ret, (List.append_nil _).symm, he ▸ h⟩

theorem shows_ask {c : γ} {Q : ρ → List ω → σ → Prop}
    (h : ∀ e, k.known e = s → ∃ out, k.shown (k.answer e c).2 = k.shown e ++ out ∧
      Q (k.answer e c).1 out (k.known (k.answer e c).2)) : k.Shows s (.ask c) Q := by
  intro e he
  obtain ⟨out, hout, hQ⟩ := h e he
  exact ⟨_, out, _, .ask, hout, hQ⟩

theorem Shows.mono {p : Prog γ ρ α} {Q R : α → List ω → σ → Prop} (h : k.Shows s p Q)
    (hQ : ∀ a out s', Q a out s' → R a out s') : k.Shows s p R := by
  intro e he
  obtain ⟨a, out, e', hrun, hout, hend⟩ := h e he
  exact ⟨a, out, e', hrun, hout, hQ _ _ _ hend⟩

theorem Shows.bind {p : Prog γ ρ β} {f : β → Prog γ ρ α} {R : β → List ω → σ → Prop}
    {Q : α → List ω → σ → Prop} (hp : k.Shows s p R)
    (hf : ∀ b out s₁, R b out s₁ → k.Shows s₁ (f b) fun a more s' => Q a (out ++ more) s') :
    k.Shows s (.bind p f) Q := by
  intro e he
  obtain ⟨b, out, e₁, hrun, hout, hR⟩ := hp e he
  obtain ⟨a, more, e', hrest, hmore, hQ⟩ := hf b out _ hR e₁ rfl
  exact ⟨a, out ++ more, e', hrun.bind hrest, by rw [hmore, hout, List.append_assoc], hQ⟩

/-- One turn of a loop, and what is left of it. -/
theorem shows_loop {body : τ → Prog γ ρ (τ ⊕ α)} {x : τ} {Q : α → List ω → σ → Prop}
    (h : k.Shows s (body x) fun y out s₁ =>
      match y with
      | .inl y => k.Shows s₁ (.loop body y) fun a more s' => Q a (out ++ more) s'
      | .inr a => Q a out s₁) : k.Shows s (.loop body x) Q := by
  intro e he
  obtain ⟨y, out, e₁, hturn, hout, hy⟩ := h e he
  cases y with
  | inl y =>
    obtain ⟨a, more, e', hrest, hmore, hQ⟩ := hy e₁ rfl
    exact ⟨a, out ++ more, e', hturn.again hrest, by rw [hmore, hout, List.append_assoc], hQ⟩
  | inr a => exact ⟨a, out, e₁, hturn.last, hout, hy⟩

/-- The program shows a text and leaves the known state alone. -/
def Prints (k : Watched γ ρ ε ω σ) (s : σ) (p : Prog γ ρ Unit) (text : List ω) : Prop :=
  k.Shows s p fun _ out s' => out = text ∧ s' = s

theorem prints_ret : k.Prints s (.ret ()) [] := shows_ret ⟨rfl, rfl⟩

/-- First a text, then the rest. -/
theorem Prints.bind {p : Prog γ ρ Unit} {f : Unit → Prog γ ρ α} {text : List ω}
    {Q : α → List ω → σ → Prop} (hp : k.Prints s p text)
    (hf : k.Shows s (f ()) fun a more s' => Q a (text ++ more) s') : k.Shows s (.bind p f) Q := by
  apply Shows.bind hp
  rintro ⟨⟩ out s₁ ⟨rfl, rfl⟩
  exact hf

theorem Prints.append {p q : Prog γ ρ Unit} {text more : List ω} (hp : k.Prints s p text)
    (hq : k.Prints s q more) : k.Prints s (.bind p fun _ => q) (text ++ more) := by
  apply hp.bind
  apply hq.mono
  rintro _ _ _ ⟨rfl, rfl⟩
  exact ⟨rfl, rfl⟩

theorem prints_forEach {xs : List β} {f : β → Prog γ ρ Unit} {text : β → List ω}
    (h : ∀ x ∈ xs, k.Prints s (f x) (text x)) :
    k.Prints s (Prog.forEach xs f) (xs.flatMap text) := by
  induction xs with
  | nil => exact prints_ret
  | cons x xs ih =>
    rw [List.forall_mem_cons] at h
    rw [List.flatMap_cons]
    exact h.1.append (ih h.2)

end Watched

end LinuxBuild.Interaction
