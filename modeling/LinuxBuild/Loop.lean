/-!
# `while` loops

A turn of a loop raises, ends it, or goes on with a new state. Nothing says
that a loop ends: `run` counts the turns.
-/

namespace LinuxBuild.Loop

variable {σ α ε : Type}

/-- At most `fuel` turns: the states that a turn went on from, and how the loop
ended, if one of the turns did end it. -/
def run (turn : σ → Except ε (σ ⊕ α)) : Nat → σ → Option (List σ × Except ε α)
  | 0, _ => none
  | fuel + 1, x =>
    match turn x with
    | .error e => some ([], .error e)
    | .ok (.inr a) => some ([], .ok a)
    | .ok (.inl y) => (run turn fuel y).map fun r => (x :: r.1, r.2)

def Ends (turn : σ → Except ε (σ ⊕ α)) (x : σ) (visited : List σ) (result : Except ε α) : Prop :=
  ∃ fuel, run turn fuel x = some (visited, result)

/-- The states at the head of a turn. -/
inductive Reaches (turn : σ → Except ε (σ ⊕ α)) (x : σ) : σ → Prop
  | start : Reaches turn x x
  | again {y z : σ} (before : Reaches turn x y) (on : turn y = .ok (.inl z)) : Reaches turn x z

variable {turn : σ → Except ε (σ ⊕ α)} {x y : σ} {visited : List σ} {result : Except ε α}

namespace Ends

theorem raised {e : ε} (h : turn x = .error e) : Ends turn x [] (.error e) :=
  ⟨1, by rw [run, h]⟩

theorem done {a : α} (h : turn x = .ok (.inr a)) : Ends turn x [] (.ok a) :=
  ⟨1, by rw [run, h]⟩

theorem again (h : turn x = .ok (.inl y)) (rest : Ends turn y visited result) :
    Ends turn x (x :: visited) result := by
  obtain ⟨fuel, hrun⟩ := rest
  exact ⟨fuel + 1, by rw [run, h]; simp only [hrun, Option.map_some]⟩

/-- How a loop that ends began. -/
theorem cases (h : Ends turn x visited result) :
    (∃ e, turn x = .error e ∧ visited = [] ∧ result = .error e) ∨
      (∃ a, turn x = .ok (.inr a) ∧ visited = [] ∧ result = .ok a) ∨
      ∃ y rest, turn x = .ok (.inl y) ∧ visited = x :: rest ∧ Ends turn y rest result := by
  obtain ⟨fuel, hrun⟩ := h
  cases fuel with
  | zero => cases hrun
  | succ fuel =>
    rw [run] at hrun
    cases ht : turn x with
    | error e =>
      rw [ht] at hrun
      cases hrun
      exact .inl ⟨e, rfl, rfl, rfl⟩
    | ok r =>
      rw [ht] at hrun
      cases r with
      | inr a =>
        cases hrun
        exact .inr (.inl ⟨a, rfl, rfl, rfl⟩)
      | inl y =>
        obtain ⟨⟨rest, result'⟩, hy, heq⟩ := Option.map_eq_some_iff.mp hrun
        cases heq
        exact .inr (.inr ⟨y, rest, rfl, rfl, fuel, hy⟩)

/-- A loop ends in one way. -/
theorem unique {visited' : List σ} {result' : Except ε α} (h : Ends turn x visited result)
    (h' : Ends turn x visited' result') : visited' = visited ∧ result' = result := by
  obtain ⟨fuel, hrun⟩ := h
  induction fuel generalizing x visited visited' with
  | zero => cases hrun
  | succ fuel ih =>
    rw [run] at hrun
    obtain ⟨e, ht, rfl, rfl⟩ | ⟨a, ht, rfl, rfl⟩ | ⟨y, rest, ht, rfl, hrest⟩ := h'.cases
    · rw [ht] at hrun
      cases hrun
      exact ⟨rfl, rfl⟩
    · rw [ht] at hrun
      cases hrun
      exact ⟨rfl, rfl⟩
    · rw [ht] at hrun
      obtain ⟨⟨rest', result'⟩, hy, heq⟩ := Option.map_eq_some_iff.mp hrun
      cases heq
      obtain ⟨rfl, rfl⟩ := ih hrest hy
      exact ⟨rfl, rfl⟩

end Ends

theorem Reaches.trans {z : σ} (h : Reaches turn x y) (h' : Reaches turn y z) : Reaches turn x z := by
  induction h' with
  | start => exact h
  | again _ on ih => exact .again ih on

/-- A loop whose turns go on at the cost of a number ends. -/
theorem ends_of_measure (measure : σ → Nat)
    (h : ∀ y z, Reaches turn x y → turn y = .ok (.inl z) → measure z < measure y) :
    ∃ visited result, Ends turn x visited result := by
  have hfrom : ∀ y, Reaches turn x y → ∃ visited result, Ends turn y visited result := by
    intro y
    induction hm : measure y using Nat.strongRecOn generalizing y with
    | ind n ih =>
      intro hy
      cases ht : turn y with
      | error e => exact ⟨_, _, .raised ht⟩
      | ok r =>
        cases r with
        | inr a => exact ⟨_, _, .done ht⟩
        | inl z =>
          have := h y z hy ht
          obtain ⟨visited, result, hrest⟩ := ih (measure z) (by omega) z rfl (.again hy ht)
          exact ⟨_, _, hrest.again ht⟩
  exact hfrom x .start

/-- A state that goes on to itself does so for ever. -/
theorem not_ends_of_stuck (h : turn x = .ok (.inl x)) : ¬ Ends turn x visited result := by
  rintro ⟨fuel, hrun⟩
  induction fuel generalizing visited with
  | zero => cases hrun
  | succ fuel ih =>
    rw [run, h] at hrun
    obtain ⟨⟨rest, result'⟩, hy, heq⟩ := Option.map_eq_some_iff.mp hrun
    cases heq
    exact ih hy

end LinuxBuild.Loop
