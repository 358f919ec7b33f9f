import LinuxBuild.Crash

/-!
# Programs that run programs

A program that can stop anywhere may be cut off after some of its acts, work on
a part of a larger state, and be followed by what depends on how it ended.
-/

namespace LinuxBuild.Crash

variable {σ τ ε δ : Type}

/-- `p`, and then one of two programs. -/
def Prog.andThen : Prog σ ε → Prog σ δ → (ε → Prog σ δ) → Prog σ δ
  | .done, ok, _ => ok
  | .raise e, _, failed => failed e
  | .act f next, ok, failed => .act f (next.andThen ok failed)
  | .ask next, ok, failed => .ask fun s => (next s).andThen ok failed

/-- At most `n` acts of the program, which raises `e` where it is cut off. -/
def Prog.cut (e : ε) : Nat → Prog σ ε → Prog σ ε
  | _, .done => .done
  | _, .raise e' => .raise e'
  | n, .ask next => .ask fun s => (next s).cut e n
  | 0, .act _ _ => .raise e
  | n + 1, .act f next => .act f (next.cut e n)

/-- A program on a part of the state. -/
def Prog.embed (part : τ → σ) (lift : (σ → σ) → τ → τ) : Prog σ ε → Prog τ ε
  | .done => .done
  | .raise e => .raise e
  | .act f next => .act (lift f) (next.embed part lift)
  | .ask next => .ask fun t => (next (part t)).embed part lift

theorem safe_andThen {I : σ → Prop} {p : Prog σ ε} {ok : Prog σ δ} {failed : ε → Prog σ δ} {s : σ}
    (hp : Safe I p s) (hok : ∀ s', run p s = (none, s') → Safe I ok s')
    (hfailed : ∀ e s', run p s = (some e, s') → Safe I (failed e) s') :
    Safe I (p.andThen ok failed) s := by
  induction p generalizing s with
  | done => exact hok s rfl
  | raise e => exact hfailed e s rfl
  | act f next ih =>
    have hs : I s := hp 0
    exact safe_act hs (ih (fun n => hp (n + 1)) hok hfailed)
  | ask next ih =>
    refine safe_ask (ih s (fun n => ?_) hok hfailed)
    rw [← stopped_ask]
    exact hp n

theorem run_andThen (p : Prog σ ε) (ok : Prog σ δ) (failed : ε → Prog σ δ) (s : σ) :
    run (p.andThen ok failed) s =
      match run p s with
      | (none, s') => run ok s'
      | (some e, s') => run (failed e) s' := by
  induction p generalizing s with
  | done => rfl
  | raise e => rfl
  | act f next ih => exact ih (f s)
  | ask next ih => exact ih s s

/-- What is cut off has done what a stop leaves. -/
theorem stopped_cut (e : ε) (n m : Nat) (p : Prog σ ε) (s : σ) :
    stopped m (p.cut e n) s = stopped (min m n) p s := by
  induction p generalizing m n s with
  | done => cases m <;> cases n <;> rfl
  | raise e' => cases m <;> cases n <;> rfl
  | ask next ih =>
    rw [Prog.cut, stopped_ask, stopped_ask]
    exact ih s n m s
  | act f next ih =>
    cases n with
    | zero => rw [Prog.cut, stopped_raise, Nat.min_zero, stopped_zero]
    | succ n =>
      cases m with
      | zero => rw [Nat.zero_min, stopped_zero, stopped_zero]
      | succ m =>
        rw [Nat.succ_min_succ]
        exact ih n m (f s)

/-- What ends well has not been cut off. -/
theorem run_of_cut {e : ε} {n : Nat} {p : Prog σ ε} {s s' : σ}
    (h : run (p.cut e n) s = (none, s')) : run p s = (none, s') := by
  induction p generalizing n s with
  | done => exact h
  | raise e' => exact h
  | ask next ih => exact ih s h
  | act f next ih =>
    cases n with
    | zero => cases h
    | succ n => exact ih h

/-- A run that ends well ends in `Q`. -/
def Ends (Q : σ → Prop) (p : Prog σ ε) (s : σ) : Prop := ∀ s', run p s = (none, s') → Q s'

section Ends

variable {Q : σ → Prop} {s : σ}

theorem ends_raise {e : ε} : Ends Q (.raise e) s := by
  intro s' h
  cases h

theorem ends_ask {next : σ → Prog σ ε} (h : Ends Q (next s) s) : Ends Q (.ask next) s := h

theorem ends_acts {fs : List (σ → σ)} {next : Prog σ ε} (h : Ends Q next (applyAll fs s)) :
    Ends Q (acts fs next) s := by
  intro s' hrun
  rw [run_acts] at hrun
  exact h s' hrun

theorem ends_andThen {p : Prog σ ε} {ok : Prog σ δ} {failed : ε → Prog σ δ}
    (hok : ∀ s', run p s = (none, s') → Ends Q ok s')
    (hfailed : ∀ e s', run p s = (some e, s') → Ends Q (failed e) s') :
    Ends Q (p.andThen ok failed) s := by
  intro s' hrun
  rw [run_andThen] at hrun
  split at hrun
  · rename_i s₁ hp
    exact hok s₁ hp s' hrun
  · rename_i e s₁ hp
    exact hfailed e s₁ hp s' hrun

end Ends

/-- A run ends where a stop can leave it. -/
theorem Safe.run {I : σ → Prop} {p : Prog σ ε} {s s' : σ} {e : Option ε} (h : Safe I p s)
    (hrun : Crash.run p s = (e, s')) : I s' := by
  obtain ⟨n, hn⟩ := exists_stopped_eq_run p s
  have hlast : stopped n p s = s' := by rw [hn, hrun]
  rw [← hlast]
  exact h n

section Embed

variable {part : τ → σ} {lift : (σ → σ) → τ → τ} (hpart : ∀ f t, part (lift f t) = f (part t))

include hpart

theorem stopped_embed (n : Nat) (p : Prog σ ε) (t : τ) :
    part (stopped n (p.embed part lift) t) = stopped n p (part t) := by
  induction p generalizing n t with
  | done => cases n <;> rfl
  | raise e => cases n <;> rfl
  | ask next ih =>
    rw [Prog.embed, stopped_ask, stopped_ask]
    exact ih (part t) n t
  | act f next ih =>
    cases n with
    | zero => rfl
    | succ n =>
      rw [Prog.embed, stopped, stopped, ih n (lift f t), hpart]

theorem run_embed (p : Prog σ ε) (t : τ) :
    ((run (p.embed part lift) t).1, part (run (p.embed part lift) t).2) = run p (part t) := by
  induction p generalizing t with
  | done => rfl
  | raise e => rfl
  | ask next ih => exact ih (part t) t
  | act f next ih =>
    rw [Prog.embed, run, run, ih (lift f t), hpart]

end Embed

/-- What every lifted act keeps, wherever the program stops. -/
theorem safe_embed {part : τ → σ} {lift : (σ → σ) → τ → τ} {P : τ → Prop} {p : Prog σ ε} {t : τ}
    (h : ActsOnly (fun f => ∀ t, P t → P (lift f t)) p) (ht : P t) :
    Safe P (p.embed part lift) t := by
  induction p generalizing t with
  | done => exact safe_done ht
  | raise e => exact safe_raise ht
  | ask next ih => exact safe_ask (ih (part t) (h (part t)) ht)
  | act f next ih => exact safe_act ht (ih h.2 (h.1 t ht))

theorem actsOnly_of_forall {A : (σ → σ) → Prop} {p : Prog σ ε} (h : ∀ f, A f) : ActsOnly A p := by
  induction p with
  | done => trivial
  | raise e => trivial
  | ask next ih => exact ih
  | act f next ih => exact ⟨h f, ih⟩

end LinuxBuild.Crash
