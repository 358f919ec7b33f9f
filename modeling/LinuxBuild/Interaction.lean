/-!
# Programs that make calls

A program makes one call at a time and goes on with the reply, whatever it is.
Its runs are the traces of calls and replies after which it returns (`Runs`);
`Makes` also sees the runs that have not returned, or never do. `exec` runs a
program against an environment that answers each call.
-/

namespace LinuxBuild.Interaction

inductive Prog (γ ρ : Type) : Type → Type 1 where
  | ret {α : Type} (a : α) : Prog γ ρ α
  | call {α : Type} (c : γ) (next : ρ → Prog γ ρ α) : Prog γ ρ α
  | bind {α β : Type} (p : Prog γ ρ β) (f : β → Prog γ ρ α) : Prog γ ρ α
  | loop {σ α : Type} (body : σ → Prog γ ρ (σ ⊕ α)) (x : σ) : Prog γ ρ α

abbrev Trace (γ ρ : Type) := List (γ × ρ)

variable {γ ρ σ α β : Type}

instance : Monad (Prog γ ρ) where
  pure := .ret
  bind := .bind

namespace Prog

/-- The reply to a call. -/
def ask (c : γ) : Prog γ ρ ρ := .call c .ret

/-- A loop without a way out. -/
def forever (body : Prog γ ρ Unit) : Prog γ ρ α :=
  .loop (fun _ => .bind body fun _ => .ret (.inl ())) ()

/-- The program for each element in turn. -/
def forEach (xs : List β) (f : β → Prog γ ρ Unit) : Prog γ ρ Unit :=
  match xs with
  | [] => .ret ()
  | x :: xs => .bind (f x) fun _ => forEach xs f

end Prog

/-- The program returns `a` after the calls and replies of the trace. -/
inductive Runs : {α : Type} → Prog γ ρ α → Trace γ ρ → α → Prop where
  | ret {α : Type} {a : α} : Runs (.ret a) [] a
  | call {α : Type} {c : γ} {next : ρ → Prog γ ρ α} {r : ρ} {t : Trace γ ρ} {a : α}
      (rest : Runs (next r) t a) : Runs (.call c next) ((c, r) :: t) a
  | bind {α β : Type} {p : Prog γ ρ β} {f : β → Prog γ ρ α} {t u : Trace γ ρ} {b : β} {a : α}
      (first : Runs p t b) (rest : Runs (f b) u a) : Runs (.bind p f) (t ++ u) a
  | last {σ α : Type} {body : σ → Prog γ ρ (σ ⊕ α)} {x : σ} {t : Trace γ ρ} {a : α}
      (turn : Runs (body x) t (.inr a)) : Runs (.loop body x) t a
  | again {σ α : Type} {body : σ → Prog γ ρ (σ ⊕ α)} {x y : σ} {t u : Trace γ ρ} {a : α}
      (turn : Runs (body x) t (.inl y)) (rest : Runs (.loop body y) u a) :
      Runs (.loop body x) (t ++ u) a

/-- After the calls and replies of the trace the program makes the call. -/
inductive Makes : {α : Type} → Prog γ ρ α → Trace γ ρ → γ → Prop where
  | call {α : Type} {c : γ} {next : ρ → Prog γ ρ α} : Makes (.call c next) [] c
  | reply {α : Type} {c d : γ} {next : ρ → Prog γ ρ α} {r : ρ} {t : Trace γ ρ}
      (rest : Makes (next r) t d) : Makes (.call c next) ((c, r) :: t) d
  | first {α β : Type} {p : Prog γ ρ β} {f : β → Prog γ ρ α} {t : Trace γ ρ} {d : γ}
      (first : Makes p t d) : Makes (.bind p f) t d
  | second {α β : Type} {p : Prog γ ρ β} {f : β → Prog γ ρ α} {t u : Trace γ ρ} {b : β} {d : γ}
      (first : Runs p t b) (rest : Makes (f b) u d) : Makes (.bind p f) (t ++ u) d
  | turn {σ α : Type} {body : σ → Prog γ ρ (σ ⊕ α)} {x : σ} {t : Trace γ ρ} {d : γ}
      (turn : Makes (body x) t d) : Makes (.loop body x) t d
  | again {σ α : Type} {body : σ → Prog γ ρ (σ ⊕ α)} {x y : σ} {t u : Trace γ ρ} {d : γ}
      (turn : Runs (body x) t (.inl y)) (rest : Makes (.loop body y) u d) :
      Makes (.loop body x) (t ++ u) d

/-! ## Taking a run apart -/

@[simp] theorem runs_ret {a b : α} {t : Trace γ ρ} : Runs (.ret a) t b ↔ t = [] ∧ b = a := by
  constructor
  · intro h
    cases h
    exact ⟨rfl, rfl⟩
  · rintro ⟨rfl, rfl⟩
    exact .ret

theorem runs_call {c : γ} {next : ρ → Prog γ ρ α} {t : Trace γ ρ} {a : α} :
    Runs (.call c next) t a ↔ ∃ r u, t = (c, r) :: u ∧ Runs (next r) u a := by
  constructor
  · intro h
    cases h with
    | call rest => exact ⟨_, _, rfl, rest⟩
  · rintro ⟨r, u, rfl, h⟩
    exact .call h

theorem runs_bind {p : Prog γ ρ β} {f : β → Prog γ ρ α} {t : Trace γ ρ} {a : α} :
    Runs (.bind p f) t a ↔ ∃ u v b, t = u ++ v ∧ Runs p u b ∧ Runs (f b) v a := by
  constructor
  · intro h
    cases h with
    | bind first rest => exact ⟨_, _, _, rfl, first, rest⟩
  · rintro ⟨u, v, b, rfl, hp, hf⟩
    exact .bind hp hf

theorem runs_ask {c : γ} {t : Trace γ ρ} {r : ρ} : Runs (.ask c) t r ↔ t = [(c, r)] := by
  rw [Prog.ask, runs_call]
  constructor
  · rintro ⟨r', u, rfl, h⟩
    obtain ⟨rfl, rfl⟩ := runs_ret.mp h
    rfl
  · rintro rfl
    exact ⟨r, [], rfl, .ret⟩

/-- A call, then the rest of the program. -/
theorem runs_ask_bind {c : γ} {f : ρ → Prog γ ρ α} {t : Trace γ ρ} {a : α} :
    Runs (.bind (.ask c) f) t a ↔ ∃ r u, t = (c, r) :: u ∧ Runs (f r) u a := by
  rw [runs_bind]
  constructor
  · rintro ⟨u, v, r, rfl, hu, hv⟩
    rw [runs_ask.mp hu]
    exact ⟨r, v, rfl, hv⟩
  · rintro ⟨r, u, rfl, h⟩
    exact ⟨[(c, r)], u, r, rfl, runs_ask.mpr rfl, h⟩

/-- One call, and a value read off its reply. -/
theorem runs_ask_pure {c : γ} {f : ρ → α} {t : Trace γ ρ} {a : α} :
    Runs (.bind (.ask c) fun r => .ret (f r)) t a ↔ ∃ r, t = [(c, r)] ∧ a = f r := by
  apply runs_ask_bind.trans
  constructor
  · rintro ⟨r, u, rfl, h⟩
    obtain ⟨rfl, rfl⟩ := runs_ret.mp h
    exact ⟨r, rfl, rfl⟩
  · rintro ⟨r, rfl, rfl⟩
    exact ⟨r, [], rfl, .ret⟩

theorem runs_loop {body : σ → Prog γ ρ (σ ⊕ α)} {x : σ} {t : Trace γ ρ} {a : α} :
    Runs (.loop body x) t a ↔ Runs (body x) t (.inr a) ∨
      ∃ y u v, t = u ++ v ∧ Runs (body x) u (.inl y) ∧ Runs (.loop body y) v a := by
  constructor
  · intro h
    cases h with
    | last turn => exact .inl turn
    | again turn rest => exact .inr ⟨_, _, _, rfl, turn, rest⟩
  · rintro (h | ⟨y, u, v, rfl, h, hr⟩)
    · exact .last h
    · exact .again h hr

/-- Induction on the turns of a loop that returns. -/
theorem loop_induction {body : σ → Prog γ ρ (σ ⊕ α)} {motive : σ → Trace γ ρ → α → Prop}
    (last : ∀ x t a, Runs (body x) t (.inr a) → motive x t a)
    (again : ∀ x y t u a, Runs (body x) t (.inl y) → Runs (.loop body y) u a → motive y u a →
      motive x (t ++ u) a)
    {x : σ} {t : Trace γ ρ} {a : α} (h : Runs (.loop body x) t a) : motive x t a := by
  generalize hp : Prog.loop body x = p at h
  induction h generalizing x with
  | ret | call | bind => cases hp
  | last turn =>
    cases hp
    exact last _ _ _ turn
  | again turn rest _ ih =>
    cases hp
    exact again _ _ _ _ _ turn rest (ih last again rfl)

theorem not_makes_ret {a : α} {t : Trace γ ρ} {c : γ} : ¬ Makes (.ret a) t c := by
  intro h
  cases h

theorem makes_ask {c d : γ} {t : Trace γ ρ} :
    Makes (.ask c : Prog γ ρ ρ) t d ↔ t = [] ∧ d = c := by
  constructor
  · intro h
    cases h with
    | call => exact ⟨rfl, rfl⟩
    | reply rest => exact absurd rest not_makes_ret
  · rintro ⟨rfl, rfl⟩
    exact .call

theorem makes_bind {p : Prog γ ρ β} {f : β → Prog γ ρ α} {t : Trace γ ρ} {c : γ} :
    Makes (.bind p f) t c ↔
      Makes p t c ∨ ∃ u v b, t = u ++ v ∧ Runs p u b ∧ Makes (f b) v c := by
  constructor
  · intro h
    cases h with
    | first first => exact .inl first
    | second first rest => exact .inr ⟨_, _, _, rfl, first, rest⟩
  · rintro (h | ⟨u, v, b, rfl, hp, hf⟩)
    · exact .first h
    · exact .second hp hf

/-- Induction on the turns before a call that a loop makes. -/
theorem makes_induction {body : σ → Prog γ ρ (σ ⊕ α)} {motive : σ → Trace γ ρ → γ → Prop}
    (turn : ∀ x t c, Makes (body x) t c → motive x t c)
    (again : ∀ x y t u c, Runs (body x) t (.inl y) → motive y u c → motive x (t ++ u) c)
    {x : σ} {t : Trace γ ρ} {c : γ} (h : Makes (.loop body x) t c) : motive x t c := by
  generalize hp : Prog.loop body x = p at h
  induction h generalizing x with
  | call | reply | first | second => cases hp
  | turn made =>
    cases hp
    exact turn _ _ _ made
  | again returned _ ih =>
    cases hp
    exact again _ _ _ _ _ returned (ih turn again rfl)

/-- An element of two lists in a row is one of the first or one of the second. -/
theorem append_eq_append_cons {ι : Type} {t u w v : List ι} {e : ι} (h : t ++ u = w ++ e :: v) :
    (∃ x, t = w ++ e :: x) ∨ ∃ x, w = t ++ x ∧ u = x ++ e :: v := by
  obtain ⟨x, hw, hu⟩ | ⟨x, ht, hv⟩ := List.append_eq_append_iff.mp h
  · exact .inr ⟨x, hw, hu⟩
  · cases x with
    | nil =>
      rw [List.append_nil] at ht
      rw [List.nil_append] at hv
      exact .inr ⟨[], by rw [ht, List.append_nil], by rw [← hv, List.nil_append]⟩
    | cons e' x =>
      cases hv
      exact .inl ⟨x, ht⟩

/-- Every call of a run is made after the calls and replies before it. -/
theorem Runs.makes {p : Prog γ ρ α} {t u v : Trace γ ρ} {a : α} {c : γ} {r : ρ} (h : Runs p t a)
    (ht : t = u ++ (c, r) :: v) : Makes p u c := by
  induction h generalizing u v with
  | ret => simp at ht
  | call rest ih =>
    cases u with
    | nil =>
      cases ht
      exact .call
    | cons e u =>
      cases ht
      exact .reply (ih rfl)
  | bind first rest ihf ihr =>
    obtain ⟨x, hx⟩ | ⟨x, rfl, hx⟩ := append_eq_append_cons ht
    · exact .first (ihf hx)
    · exact .second first (ihr hx)
  | last turn ih => exact .turn (ih ht)
  | again turn rest iht ihr =>
    obtain ⟨x, hx⟩ | ⟨x, rfl, hx⟩ := append_eq_append_cons ht
    · exact .turn (iht hx)
    · exact .again turn (ihr hx)

/-- So is every call that is answered before another one is made. -/
theorem Makes.makes {p : Prog γ ρ α} {t u v : Trace γ ρ} {c d : γ} {r : ρ} (h : Makes p t d)
    (ht : t = u ++ (c, r) :: v) : Makes p u c := by
  induction h generalizing u v with
  | call => simp at ht
  | reply rest ih =>
    cases u with
    | nil =>
      cases ht
      exact .call
    | cons e u =>
      cases ht
      exact .reply (ih rfl)
  | first first ih => exact .first (ih ht)
  | second first rest ih =>
    obtain ⟨x, hx⟩ | ⟨x, rfl, hx⟩ := append_eq_append_cons ht
    · exact .first (first.makes hx)
    · exact .second first (ih hx)
  | turn turn ih => exact .turn (ih ht)
  | again turn rest ih =>
    obtain ⟨x, hx⟩ | ⟨x, rfl, hx⟩ := append_eq_append_cons ht
    · exact .turn (turn.makes hx)
    · exact .again turn (ih hx)

/-! ## Which calls a program makes -/

/-- Every call of every run, finished or not, is one of `P`. -/
def CallsOnly (P : γ → Prop) (p : Prog γ ρ α) : Prop := ∀ t c, Makes p t c → P c

namespace CallsOnly

variable {P : γ → Prop}

theorem ret {a : α} : CallsOnly P (.ret a : Prog γ ρ α) := by
  intro t c h
  cases h

theorem call {c : γ} {next : ρ → Prog γ ρ α} (hc : P c) (h : ∀ r, CallsOnly P (next r)) :
    CallsOnly P (.call c next) := by
  intro t d hd
  cases hd with
  | call => exact hc
  | reply rest => exact h _ _ _ rest

theorem bind {p : Prog γ ρ β} {f : β → Prog γ ρ α} (hp : CallsOnly P p)
    (hf : ∀ b, CallsOnly P (f b)) : CallsOnly P (.bind p f) := by
  intro t d hd
  cases hd with
  | first first => exact hp _ _ first
  | second first rest => exact hf _ _ _ rest

theorem loop {body : σ → Prog γ ρ (σ ⊕ α)} (h : ∀ x, CallsOnly P (body x)) {x : σ} :
    CallsOnly P (.loop body x) := by
  intro t c hc
  refine makes_induction (motive := fun _ _ c => P c) ?_ ?_ hc
  · intro x t c turn
    exact h x t c turn
  · intro x y t u c _ ih
    exact ih

theorem ask {c : γ} (hc : P c) : CallsOnly P (.ask c : Prog γ ρ ρ) := call hc fun _ => ret

theorem forEach {xs : List β} {f : β → Prog γ ρ Unit} (h : ∀ x, CallsOnly P (f x)) :
    CallsOnly P (.forEach xs f) := by
  induction xs with
  | nil => exact ret
  | cons x xs ih => exact bind (h x) fun _ => ih

theorem ite {c : Prop} [Decidable c] {p q : Prog γ ρ α} (hp : CallsOnly P p)
    (hq : CallsOnly P q) : CallsOnly P (if c then p else q) := by
  split
  · exact hp
  · exact hq

theorem of_makes {p : Prog γ ρ α} (h : CallsOnly P p) {t : Trace γ ρ} {c : γ}
    (hm : Makes p t c) : ∀ e ∈ t, P e.1 := by
  intro e he
  obtain ⟨u, v, rfl⟩ := List.append_of_mem he
  exact h _ _ (hm.makes rfl)

theorem of_runs {p : Prog γ ρ α} (h : CallsOnly P p) {t : Trace γ ρ} {a : α} (hr : Runs p t a) :
    ∀ e ∈ t, P e.1 := by
  intro e he
  obtain ⟨u, v, rfl⟩ := List.append_of_mem he
  exact h _ _ (hr.makes rfl)

end CallsOnly

/-! ## Running a program -/

/-- At most `fuel` turns of a loop. -/
def turns {ε : Type} (turn : σ → ε → Option ((σ ⊕ α) × Trace γ ρ × ε)) :
    Nat → σ → ε → Option (α × Trace γ ρ × ε)
  | 0, _, _ => none
  | fuel + 1, x, e =>
    match turn x e with
    | none => none
    | some (.inr a, t, e) => some (a, t, e)
    | some (.inl y, t, e) =>
      match turns turn fuel y e with
      | none => none
      | some (a, u, e) => some (a, t ++ u, e)

/-- The program run against an environment that answers each call. -/
def exec {ε : Type} (answer : ε → γ → ρ × ε) (fuel : Nat) :
    {α : Type} → Prog γ ρ α → ε → Option (α × Trace γ ρ × ε)
  | _, .ret a, e => some (a, [], e)
  | _, .call c next, e =>
    match exec answer fuel (next (answer e c).1) (answer e c).2 with
    | none => none
    | some (a, t, e') => some (a, (c, (answer e c).1) :: t, e')
  | _, .bind p f, e =>
    match exec answer fuel p e with
    | none => none
    | some (b, t, e) =>
      match exec answer fuel (f b) e with
      | none => none
      | some (a, u, e) => some (a, t ++ u, e)
  | _, .loop body x, e => turns (fun x e => exec answer fuel (body x) e) fuel x e

/-- The environment answers the calls of the trace as it says. -/
def Serves {ε : Type} (answer : ε → γ → ρ × ε) : ε → Trace γ ρ → ε → Prop
  | e, [], e' => e' = e
  | e, (c, r) :: t, e' => (answer e c).1 = r ∧ Serves answer (answer e c).2 t e'

theorem Serves.append {ε : Type} {answer : ε → γ → ρ × ε} {e e' e'' : ε} {t u : Trace γ ρ}
    (h : Serves answer e t e') (h' : Serves answer e' u e'') : Serves answer e (t ++ u) e'' := by
  induction t generalizing e with
  | nil =>
    cases h
    exact h'
  | cons x t ih => exact ⟨h.1, ih h.2⟩

theorem Serves.split {ε : Type} {answer : ε → γ → ρ × ε} {e e' : ε} {t u : Trace γ ρ}
    (h : Serves answer e (t ++ u) e') : ∃ e₁, Serves answer e t e₁ ∧ Serves answer e₁ u e' := by
  induction t generalizing e with
  | nil => exact ⟨e, rfl, h⟩
  | cons x t ih =>
    obtain ⟨e₁, ht, hu⟩ := ih h.2
    exact ⟨e₁, ⟨h.1, ht⟩, hu⟩

theorem turns_sound {ε : Type} {answer : ε → γ → ρ × ε} {body : σ → Prog γ ρ (σ ⊕ α)}
    {turn : σ → ε → Option ((σ ⊕ α) × Trace γ ρ × ε)}
    (hturn : ∀ x e r t e', turn x e = some (r, t, e') → Runs (body x) t r ∧ Serves answer e t e')
    {fuel : Nat} {x : σ} {e e' : ε} {a : α} {t : Trace γ ρ}
    (h : turns turn fuel x e = some (a, t, e')) :
    Runs (.loop body x) t a ∧ Serves answer e t e' := by
  induction fuel generalizing x e t with
  | zero => cases h
  | succ fuel ih =>
    rw [turns] at h
    split at h
    · cases h
    · rename_i b u e₁ hb
      cases h
      obtain ⟨hr, hs⟩ := hturn _ _ _ _ _ hb
      exact ⟨.last hr, hs⟩
    · rename_i y u e₁ hy
      obtain ⟨hr, hs⟩ := hturn _ _ _ _ _ hy
      split at h
      · cases h
      · rename_i b v e₂ hv
        cases h
        obtain ⟨hr', hs'⟩ := ih hv
        exact ⟨.again hr hr', hs.append hs'⟩

/-- What `exec` returns is a run of the program that the environment serves. -/
theorem exec_sound {ε : Type} {answer : ε → γ → ρ × ε} {fuel : Nat} {p : Prog γ ρ α} {e e' : ε}
    {a : α} {t : Trace γ ρ} (h : exec answer fuel p e = some (a, t, e')) :
    Runs p t a ∧ Serves answer e t e' := by
  induction p generalizing e e' t with
  | ret b =>
    cases h
    exact ⟨.ret, rfl⟩
  | call c next ih =>
    rw [exec] at h
    split at h
    · cases h
    · rename_i b u e₁ hb
      cases h
      obtain ⟨hr, hs⟩ := ih _ hb
      exact ⟨.call hr, rfl, hs⟩
  | bind p f ihp ihf =>
    rw [exec] at h
    split at h
    · cases h
    · rename_i b u e₁ hb
      split at h
      · cases h
      · rename_i b' v e₂ hv
        cases h
        obtain ⟨hr, hs⟩ := ihp hb
        obtain ⟨hr', hs'⟩ := ihf _ hv
        exact ⟨.bind hr hr', hs.append hs'⟩
  | loop body x ih =>
    rw [exec] at h
    exact turns_sound (fun x e r t e' hx => ih x hx) h

/-- A run that `exec` finds, with what can be checked of it. -/
theorem exists_runs_of_exec {ε : Type} (answer : ε → γ → ρ × ε) (fuel : Nat) (e : ε)
    {p : Prog γ ρ α} {P : Trace γ ρ → Prop} [∀ t, Decidable (P t)]
    (h : ((exec answer fuel p e).any fun x => decide (P x.2.1)) = true) :
    ∃ t a, Runs p t a ∧ P t := by
  cases hx : exec answer fuel p e with
  | none =>
    rw [hx] at h
    cases h
  | some x =>
    rw [hx] at h
    exact ⟨x.2.1, x.1, (exec_sound hx).1, of_decide_eq_true h⟩

/-! ## Served programs -/

section

variable {ε : Type} {answer : ε → γ → ρ × ε} {e e₁ e' : ε}

/-- Served by the environment, the program returns `a` and leaves it as `e'`. -/
def Yields (answer : ε → γ → ρ × ε) (e : ε) (p : Prog γ ρ α) (a : α) (e' : ε) : Prop :=
  ∃ t, Runs p t a ∧ Serves answer e t e'

namespace Yields

theorem ret {a : α} : Yields answer e (.ret a) a e := ⟨[], .ret, rfl⟩

theorem ask {c : γ} : Yields answer e (.ask c) (answer e c).1 (answer e c).2 :=
  ⟨[(c, (answer e c).1)], .call .ret, rfl, rfl⟩

theorem bind {p : Prog γ ρ β} {f : β → Prog γ ρ α} {a : α} {b : β}
    (hp : Yields answer e p b e₁) (hf : Yields answer e₁ (f b) a e') :
    Yields answer e (.bind p f) a e' := by
  obtain ⟨t, ht, hst⟩ := hp
  obtain ⟨u, hu, hsu⟩ := hf
  exact ⟨t ++ u, .bind ht hu, hst.append hsu⟩

theorem last {body : σ → Prog γ ρ (σ ⊕ α)} {x : σ} {a : α}
    (h : Yields answer e (body x) (.inr a) e') : Yields answer e (.loop body x) a e' := by
  obtain ⟨t, ht, hst⟩ := h
  exact ⟨t, .last ht, hst⟩

theorem again {body : σ → Prog γ ρ (σ ⊕ α)} {x y : σ} {a : α}
    (h : Yields answer e (body x) (.inl y) e₁) (hr : Yields answer e₁ (.loop body y) a e') :
    Yields answer e (.loop body x) a e' := by
  obtain ⟨t, ht, hst⟩ := h
  obtain ⟨u, hu, hsu⟩ := hr
  exact ⟨t ++ u, .again ht hu, hst.append hsu⟩

end Yields

/-- An environment leaves a program one run. -/
theorem Runs.served_once {p : Prog γ ρ α} {t u : Trace γ ρ} {a b : α} {e'' : ε} (h : Runs p t a)
    (hs : Serves answer e t e') (h' : Runs p u b) (hs' : Serves answer e u e'') :
    b = a ∧ e'' = e' := by
  induction h generalizing e e' e'' u with
  | ret =>
    obtain ⟨rfl, rfl⟩ := runs_ret.mp h'
    cases hs
    cases hs'
    exact ⟨rfl, rfl⟩
  | call rest ih =>
    obtain ⟨r, v, rfl, hv⟩ := runs_call.mp h'
    obtain ⟨rfl, hs⟩ := hs
    obtain ⟨rfl, hs'⟩ := hs'
    exact ih hs hv hs'
  | bind first rest ihf ihr =>
    obtain ⟨v, v', c, rfl, hv, hv'⟩ := runs_bind.mp h'
    obtain ⟨e₁, hs₁, hs₂⟩ := hs.split
    obtain ⟨e₂, hs₁', hs₂'⟩ := hs'.split
    obtain ⟨rfl, rfl⟩ := ihf hs₁ hv hs₁'
    exact ihr hs₂ hv' hs₂'
  | last turn ih =>
    obtain hv | ⟨y, v, v', rfl, hv, hv'⟩ := runs_loop.mp h'
    · obtain ⟨heq, hfinal⟩ := ih hs hv hs'
      exact ⟨Sum.inr.inj heq, hfinal⟩
    · obtain ⟨e₂, hs₁', _⟩ := hs'.split
      cases (ih hs hv hs₁').1
  | again turn rest iht ihr =>
    obtain ⟨e₁, hs₁, hs₂⟩ := hs.split
    obtain hv | ⟨y, v, v', rfl, hv, hv'⟩ := runs_loop.mp h'
    · cases (iht hs₁ hv hs').1
    · obtain ⟨e₂, hs₁', hs₂'⟩ := hs'.split
      obtain ⟨heq, rfl⟩ := iht hs₁ hv hs₁'
      obtain rfl := Sum.inl.inj heq
      exact ihr hs₂ hv' hs₂'

theorem Yields.unique {p : Prog γ ρ α} {a b : α} {e'' : ε} (h : Yields answer e p a e')
    (h' : Yields answer e p b e'') : b = a ∧ e'' = e' := by
  obtain ⟨t, ht, hs⟩ := h
  obtain ⟨u, hu, hs'⟩ := h'
  exact ht.served_once hs hu hs'

/-- A program goes on from where the first part of it leaves the environment. -/
theorem Yields.bind_iff {p : Prog γ ρ β} {f : β → Prog γ ρ α} {a : α} {b : β}
    (h : Yields answer e p b e₁) :
    Yields answer e (.bind p f) a e' ↔ Yields answer e₁ (f b) a e' := by
  constructor
  · rintro ⟨t, ht, hs⟩
    obtain ⟨u, v, c, rfl, hu, hv⟩ := runs_bind.mp ht
    obtain ⟨e₂, hsu, hsv⟩ := hs.split
    obtain ⟨rfl, rfl⟩ := h.unique ⟨u, hu, hsu⟩
    exact ⟨v, hv, hsv⟩
  · intro hf
    exact h.bind hf

end

end LinuxBuild.Interaction
