/-!
# Programs that can stop anywhere

A program looks at a state and acts on it, one act at a time. It can be stopped
before any act, so a property of what a stop leaves behind is a property of
every state on the way (`Safe`).
-/

namespace LinuxBuild.Crash

inductive Prog (σ ε : Type) where
  | done
  | raise (e : ε)
  | act (f : σ → σ) (next : Prog σ ε)
  | ask (next : σ → Prog σ ε)

variable {σ ε : Type}

/-- The state after at most `n` acts. -/
def stopped : Nat → Prog σ ε → σ → σ
  | _, .done, s => s
  | _, .raise _, s => s
  | n, .ask next, s => stopped n (next s) s
  | 0, .act _ _, s => s
  | n + 1, .act f next, s => stopped n next (f s)

/-- A run to the end: what was raised, if anything, and the last state. -/
def run : Prog σ ε → σ → Option ε × σ
  | .done, s => (none, s)
  | .raise e, s => (some e, s)
  | .ask next, s => run (next s) s
  | .act f next, s => run next (f s)

/-- Acts in turn, then the rest of the program. -/
def acts (fs : List (σ → σ)) (next : Prog σ ε) : Prog σ ε := fs.foldr .act next

def applyAll (fs : List (σ → σ)) (s : σ) : σ := fs.foldl (fun s f => f s) s

/-- `I` holds wherever the program is stopped. -/
def Safe (I : σ → Prop) (p : Prog σ ε) (s : σ) : Prop := ∀ n, I (stopped n p s)

@[simp] theorem run_acts (fs : List (σ → σ)) (next : Prog σ ε) (s : σ) :
    run (acts fs next) s = run next (applyAll fs s) := by
  induction fs generalizing s with
  | nil => rfl
  | cons f fs ih => exact ih (f s)

@[simp] theorem applyAll_nil (s : σ) : applyAll [] s = s := rfl

@[simp] theorem applyAll_cons (f : σ → σ) (fs : List (σ → σ)) (s : σ) :
    applyAll (f :: fs) s = applyAll fs (f s) := rfl

theorem applyAll_append (fs gs : List (σ → σ)) (s : σ) :
    applyAll (fs ++ gs) s = applyAll gs (applyAll fs s) := by
  simp [applyAll]

theorem applyAll_keeps {P : σ → Prop} {fs : List (σ → σ)} (h : ∀ f ∈ fs, ∀ s, P s → P (f s)) {s : σ}
    (hs : P s) : P (applyAll fs s) := by
  induction fs generalizing s with
  | nil => exact hs
  | cons f fs ih =>
    exact ih (fun g hg => h g (List.mem_cons_of_mem _ hg)) (h f List.mem_cons_self s hs)

section Rules

variable {I : σ → Prop} {s : σ}

theorem safe_done (h : I s) : Safe I (.done : Prog σ ε) s := fun n => by cases n <;> exact h

theorem safe_raise {e : ε} (h : I s) : Safe I (.raise e) s := fun n => by cases n <;> exact h

theorem safe_act {f : σ → σ} {next : Prog σ ε} (h : I s) (hnext : Safe I next (f s)) :
    Safe I (.act f next) s := fun n => by
  cases n with
  | zero => exact h
  | succ n => exact hnext n

theorem safe_ask {next : σ → Prog σ ε} (h : Safe I (next s) s) : Safe I (.ask next) s := fun n => by
  cases n <;> exact h _

theorem safe_cons {f : σ → σ} {fs : List (σ → σ)} {next : Prog σ ε} (h : I s)
    (hnext : Safe I (acts fs next) (f s)) : Safe I (acts (f :: fs) next) s := safe_act h hnext

/-- Acts that keep `I`, whatever the state. -/
theorem safe_acts {fs : List (σ → σ)} {next : Prog σ ε} (h : I s)
    (hfs : ∀ f ∈ fs, ∀ s, I s → I (f s)) (hnext : ∀ s, I s → Safe I next s) :
    Safe I (acts fs next) s := by
  induction fs generalizing s with
  | nil => exact hnext s h
  | cons f fs ih =>
    exact safe_act h (ih (hfs f List.mem_cons_self s h) fun g hg =>
      hfs g (List.mem_cons_of_mem _ hg))

/-- A stronger property that holds of the program is enough. -/
theorem Safe.mono {J : σ → Prop} {p : Prog σ ε} (h : Safe J p s) (hJ : ∀ s, J s → I s) :
    Safe I p s := fun n => hJ _ (h n)

end Rules

/-- Whatever the states answer, every act of the program is one of `A`. -/
def ActsOnly (A : (σ → σ) → Prop) : Prog σ ε → Prop
  | .done => True
  | .raise _ => True
  | .act f next => A f ∧ ActsOnly A next
  | .ask next => ∀ s, ActsOnly A (next s)

theorem actsOnly_ask {A : (σ → σ) → Prop} {next : σ → Prog σ ε} (h : ∀ s, ActsOnly A (next s)) :
    ActsOnly A (.ask next) := h

theorem stopped_zero (p : Prog σ ε) (s : σ) : stopped 0 p s = s := by
  induction p generalizing s with
  | done => rfl
  | raise e => rfl
  | act f next ih => rfl
  | ask next ih => exact ih s s

theorem stopped_ask (next : σ → Prog σ ε) (n : Nat) (s : σ) :
    stopped n (.ask next) s = stopped n (next s) s := by
  cases n <;> rfl

theorem stopped_raise (e : ε) (n : Nat) (s : σ) : stopped n (.raise e : Prog σ ε) s = s := by
  cases n <;> rfl

/-- Stopped within a list of acts, or after it. -/
theorem stopped_acts (fs : List (σ → σ)) (next : Prog σ ε) (n : Nat) (s : σ) :
    stopped n (acts fs next) s =
      if n ≤ fs.length then applyAll (fs.take n) s
      else stopped (n - fs.length) next (applyAll fs s) := by
  induction fs generalizing n s with
  | nil =>
    cases n with
    | zero => simpa [acts] using stopped_zero next s
    | succ n => simp [acts]
  | cons f fs ih =>
    cases n with
    | zero => simp [stopped_zero]
    | succ n =>
      have := ih n (f s)
      simp only [acts, List.foldr_cons, stopped] at this ⊢
      rw [this]
      simp

/-- What every act keeps is still there when the program is stopped later. -/
theorem stopped_keeps {P : σ → Prop} {p : Prog σ ε} {s : σ} {m n : Nat}
    (h : ActsOnly (fun f => ∀ s, P s → P (f s)) p) (hmn : m ≤ n) (hm : P (stopped m p s)) :
    P (stopped n p s) := by
  induction p generalizing s m n with
  | done => cases m <;> cases n <;> exact hm
  | raise e => cases m <;> cases n <;> exact hm
  | ask next ih =>
    have hm' : P (stopped m (next s) s) := by cases m <;> exact hm
    have := ih s (h s) hmn hm'
    cases n <;> exact this
  | act f next ih =>
    cases n with
    | zero =>
      obtain rfl := Nat.le_zero.mp hmn
      exact hm
    | succ n =>
      cases m with
      | zero =>
        have hf : P (stopped 0 next (f s)) := by
          rw [stopped_zero]
          exact h.1 s hm
        exact ih h.2 (Nat.zero_le n) hf
      | succ m => exact ih h.2 (Nat.le_of_succ_le_succ hmn) hm

/-- A run that is not stopped early enough is complete. -/
theorem stopped_eq_run (p : Prog σ ε) (s : σ) : ∃ n, ∀ m, n ≤ m → stopped m p s = (run p s).2 := by
  induction p generalizing s with
  | done => exact ⟨0, fun m _ => by cases m <;> rfl⟩
  | raise e => exact ⟨0, fun m _ => by cases m <;> rfl⟩
  | act f next ih =>
    obtain ⟨n, h⟩ := ih (f s)
    refine ⟨n + 1, fun m hm => ?_⟩
    cases m with
    | zero => exact absurd hm (Nat.not_succ_le_zero n)
    | succ m => exact h m (Nat.le_of_succ_le_succ hm)
  | ask next ih =>
    obtain ⟨n, h⟩ := ih s s
    refine ⟨n, fun m hm => ?_⟩
    have := h m hm
    cases m <;> exact this

/-- A complete run ends in a state a stop can leave. -/
theorem exists_stopped_eq_run (p : Prog σ ε) (s : σ) : ∃ n, stopped n p s = (run p s).2 := by
  obtain ⟨n, h⟩ := stopped_eq_run p s
  exact ⟨n, h n (Nat.le_refl n)⟩

end LinuxBuild.Crash
