import LinuxBuild.Crash

/-!
# Histories of programs that can stop anywhere

One program after another, each stopped after some of its acts. What every act
of every program keeps holds after any history; what depends on the runs so far
is carried along with their list.
-/

namespace LinuxBuild.Crash

variable {ρ σ ε : Type} {program : ρ → Prog σ ε}

/-- Each run comes with the number of acts it is given. -/
def history (program : ρ → Prog σ ε) (s : σ) (runs : List (ρ × Nat)) : σ :=
  runs.foldl (fun s r => stopped r.2 (program r.1) s) s

@[simp] theorem history_nil (s : σ) : history program s [] = s := rfl

@[simp] theorem history_cons (s : σ) (r : ρ × Nat) (runs : List (ρ × Nat)) :
    history program s (r :: runs) = history program (stopped r.2 (program r.1) s) runs := rfl

theorem history_append (s : σ) (front back : List (ρ × Nat)) :
    history program s (front ++ back) = history program (history program s front) back :=
  List.foldl_append

/-- An invariant that may speak of the runs there have been. -/
theorem history_induction {I : List ρ → σ → Prop} {s : σ} (hs : I [] s)
    (hstep : ∀ past r s, I past s → Safe (I (past ++ [r])) (program r) s) (runs : List (ρ × Nat)) :
    I (runs.map (·.1)) (history program s runs) := by
  have hrun : ∀ past s, I past s →
      I (past ++ runs.map (·.1)) (history program s runs) := by
    induction runs with
    | nil =>
      intro past s h
      simpa using h
    | cons r runs ih =>
      intro past s h
      have := ih (past ++ [r.1]) _ (hstep past r.1 s h r.2)
      simpa using this
  simpa using hrun [] s hs

theorem actsOnly_acts {A : (σ → σ) → Prop} {fs : List (σ → σ)} {next : Prog σ ε}
    (hfs : ∀ f ∈ fs, A f) (hnext : ActsOnly A next) : ActsOnly A (acts fs next) := by
  induction fs with
  | nil => exact hnext
  | cons f fs ih =>
    exact ⟨hfs f List.mem_cons_self, ih fun g hg => hfs g (List.mem_cons_of_mem _ hg)⟩

/-- What the acts keep, a stop keeps. -/
theorem safe_of_actsOnly {P : σ → Prop} {p : Prog σ ε}
    (h : ActsOnly (fun f => ∀ s, P s → P (f s)) p) {s : σ} (hs : P s) : Safe P p s := by
  intro n
  apply stopped_keeps h (Nat.zero_le n)
  rw [stopped_zero]
  exact hs

end LinuxBuild.Crash
