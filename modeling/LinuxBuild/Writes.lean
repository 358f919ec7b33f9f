import LinuxBuild.Commands

/-!
# Writing everything

`write_all` hands a descriptor a prefix of its buffer, all of it unless some
write fails or writes nothing. Its callers stop at a negative result. A write
that is answered with zero ends `write_all` as well, with a result that they
take for success.
-/

namespace LinuxBuild.Payload

open Interaction

/-- The bytes a descriptor took. -/
def accepted (fd : Nat) (t : Trace Call Reply) : Bytes :=
  t.flatMap fun e => match e.1 with
    | .write d bytes => if d = fd then bytes.take e.2.value.toNat else []
    | _ => []

def isWrite : Call → Bool
  | .write _ _ => true
  | _ => false

@[simp] theorem accepted_nil (fd : Nat) : accepted fd [] = [] := rfl

@[simp] theorem accepted_append (fd : Nat) (t u : Trace Call Reply) :
    accepted fd (t ++ u) = accepted fd t ++ accepted fd u := List.flatMap_append

theorem accepted_write (fd : Nat) (bytes : Bytes) (r : Reply) (t : Trace Call Reply) :
    accepted fd ((.write fd bytes, r) :: t) = bytes.take r.value.toNat ++ accepted fd t := by
  simp [accepted]

/-! ## `write_all` -/

/-- What a run of `write_all` did with its buffer. -/
structure Sent (fd : Nat) (buffer : Bytes) (t : Trace Call Reply) (result : Int) : Prop where
  writes : ∀ e ∈ t, ∃ bytes, e.1 = .write fd bytes
  sent : accepted fd t <+: buffer
  whole : (∀ e ∈ t, 0 < e.2.value) → accepted fd t = buffer ∧ 0 ≤ result
  cut : ∀ {u e v}, t = u ++ e :: v → e.2.value ≤ 0 →
    v = [] ∧ result = e.2.value ∧ (accepted fd t).length < buffer.length

theorem runs_sysWrite {fd : Nat} {bytes : Bytes} {t : Trace Call Reply} {count : Int} :
    Runs (sysWrite fd bytes) t count ↔ ∃ r, t = [(.write fd bytes, r)] ∧ count = r.value :=
  runs_ask_pure

/-- One round: nothing is left, or one write whose count decides. -/
theorem writeTurn_cases {fd : Nat} {rest : Bytes} {written : Nat} {t : Trace Call Reply}
    {y : (Bytes × Nat) ⊕ Int} (h : Runs (writeTurn fd (rest, written)) t y) :
    (rest = [] ∧ t = [] ∧ y = .inr written) ∨
      rest ≠ [] ∧ ∃ r, t = [(.write fd rest, r)] ∧
        (r.value ≤ 0 ∧ y = .inr r.value ∨
          0 < r.value ∧ y = .inl (rest.drop r.value.toNat, written + r.value.toNat)) := by
  simp only [writeTurn] at h
  by_cases hrest : rest = []
  · rw [if_pos hrest] at h
    obtain ⟨ht, hy⟩ := runs_ret.mp h
    exact .inl ⟨hrest, ht, hy⟩
  · rw [if_neg hrest] at h
    obtain ⟨u, v, count, rfl, hu, hv⟩ := runs_bind.mp h
    obtain ⟨r, rfl, rfl⟩ := runs_sysWrite.mp hu
    refine .inr ⟨hrest, r, ?_⟩
    split at hv
    · obtain ⟨rfl, rfl⟩ := runs_ret.mp hv
      exact ⟨rfl, .inl ⟨by assumption, rfl⟩⟩
    · obtain ⟨rfl, rfl⟩ := runs_ret.mp hv
      exact ⟨rfl, .inr ⟨by omega, rfl⟩⟩

/-- A write that fails or writes nothing is the last. -/
theorem sent_stop {fd : Nat} {rest : Bytes} {r : Reply} (hrest : rest ≠ []) (hr : r.value ≤ 0) :
    Sent fd rest [(.write fd rest, r)] r.value := by
  have hzero : r.value.toNat = 0 := by omega
  have hnone : accepted fd [(.write fd rest, r)] = [] := by
    rw [accepted_write, hzero, List.take_zero, accepted_nil, List.append_nil]
  constructor
  · simp
  · rw [hnone]
    exact List.nil_prefix
  · intro hpos
    have := hpos _ List.mem_cons_self
    simp only at this
    omega
  · intro u e v ht he
    cases u with
    | nil =>
      cases ht
      refine ⟨rfl, rfl, ?_⟩
      rw [hnone]
      exact List.length_pos_iff.mpr hrest
    | cons e' u => simp at ht

/-- A write that writes, then the bytes that are left. -/
theorem sent_step {fd : Nat} {rest : Bytes} {r : Reply} {u : Trace Call Reply} {result : Int}
    (hr : 0 < r.value) (hle : r.value ≤ rest.length)
    (hsent : Sent fd (rest.drop r.value.toNat) u result) :
    Sent fd rest ((.write fd rest, r) :: u) result := by
  have hcount : r.value.toNat ≤ rest.length := by omega
  constructor
  · simp only [List.mem_cons, forall_eq_or_imp]
    exact ⟨⟨rest, rfl⟩, hsent.writes⟩
  · rw [accepted_write]
    have := (List.prefix_append_right_inj (rest.take r.value.toNat)).mpr hsent.sent
    rwa [List.take_append_drop] at this
  · intro hpos
    obtain ⟨hu, hresult⟩ := hsent.whole fun e he => hpos e (List.mem_cons_of_mem _ he)
    rw [accepted_write, hu, List.take_append_drop]
    exact ⟨rfl, hresult⟩
  · intro v e w ht he
    cases v with
    | nil =>
      cases ht
      have : r.value ≤ 0 := he
      omega
    | cons e' v =>
      cases ht
      obtain ⟨hw, hres, hlen⟩ := hsent.cut rfl he
      refine ⟨hw, hres, ?_⟩
      simp only [List.length_drop] at hlen
      rw [accepted_write, List.length_append, List.length_take_of_le hcount]
      omega

/-- The loop from any point of the buffer on. -/
theorem sent_of_loop {fd : Nat} {x : Bytes × Nat} {t : Trace Call Reply} {result : Int}
    (h : Runs (.loop (writeTurn fd) x) t result) (hl : Legal t) : Sent fd x.1 t result := by
  apply loop_induction (motive := fun x t result => Legal t → Sent fd x.1 t result) _ _ h hl
  · rintro ⟨rest, written⟩ t result hturn hl
    obtain ⟨rfl, rfl, hy⟩ | ⟨hrest, r, rfl, ⟨hr, hy⟩ | ⟨_, hy⟩⟩ := writeTurn_cases hturn
    · cases hy
      exact ⟨by simp, List.nil_prefix, fun _ => ⟨rfl, Int.natCast_nonneg _⟩, fun h => by simp at h⟩
    · cases hy
      exact sent_stop hrest hr
    · cases hy
  · rintro ⟨rest, written⟩ ⟨rest', written'⟩ t u result hturn _ ih hl
    obtain ⟨_, _, hy⟩ | ⟨_, r, rfl, ⟨_, hy⟩ | ⟨hr, hy⟩⟩ := writeTurn_cases hturn
    · cases hy
    · cases hy
    · cases hy
      obtain ⟨hallow, hl⟩ := legal_cons.mp hl
      exact sent_step hr (of_decide_eq_true hallow) (ih hl)

/-- `write_all` comes to an end, whatever the kernel answers. -/
theorem writeAll_returns {ε : Type} (answer : ε → Call → Reply × ε) (e : ε) (fd : Nat)
    (buffer : Bytes) : ∃ result e', Yields answer e (writeAll fd buffer) result e' := by
  have hloop : ∀ (n : Nat) (rest : Bytes) (written : Nat) (e : ε), rest.length ≤ n →
      ∃ result e', Yields answer e (.loop (writeTurn fd) (rest, written)) result e' := by
    intro n
    induction n with
    | zero =>
      intro rest written e hn
      obtain rfl := List.eq_nil_of_length_eq_zero (Nat.le_zero.mp hn)
      exact ⟨written, e, .last .ret⟩
    | succ n ih =>
      intro rest written e hn
      by_cases hrest : rest = []
      · subst hrest
        exact ⟨written, e, .last .ret⟩
      · have hturn : Yields answer e (writeTurn fd (rest, written)) _ _ := yields_writeTurn hrest
        by_cases hpos : (answer e (.write fd rest)).1.value ≤ 0
        · rw [if_pos hpos] at hturn
          exact ⟨_, _, .last hturn⟩
        · rw [if_neg hpos] at hturn
          obtain ⟨result, e', hrest⟩ := ih (rest.drop (answer e (.write fd rest)).1.value.toNat)
            (written + (answer e (.write fd rest)).1.value.toNat) (answer e (.write fd rest)).2
            (by rw [List.length_drop]; omega)
          exact ⟨result, e', .again hturn hrest⟩
  exact hloop buffer.length buffer 0 e (Nat.le_refl _)

theorem sent_of_runs {fd : Nat} {buffer : Bytes} {t : Trace Call Reply} {result : Int}
    (h : Runs (writeAll fd buffer) t result) (hl : Legal t) : Sent fd buffer t result :=
  sent_of_loop h hl

/-! ## The callers -/

/-- After an incomplete write nothing more is called, and the failure is told. -/
def Stops (failed : Prop) (t : Trace Call Reply) : Prop :=
  ∀ u e v, t = u ++ e :: v → isWrite e.1 = true → e.2.value ≤ 0 → v = [] ∧ failed

/-- No write is answered with zero. -/
def ZeroFree (t : Trace Call Reply) : Prop := ∀ e ∈ t, isWrite e.1 = true → e.2.value ≠ 0

instance (t : Trace Call Reply) : Decidable (ZeroFree t) :=
  inferInstanceAs (Decidable (∀ e ∈ t, isWrite e.1 = true → e.2.value ≠ 0))

/-- What a piece of a caller's trace shows: a write that fails is its end and is
told, and a write answered with zero is followed by something or not told. -/
def Ends (failed : Prop) (t : Trace Call Reply) : Prop :=
  ∀ u e v, t = u ++ e :: v → isWrite e.1 = true →
    (e.2.value < 0 → v = [] ∧ failed) ∧ (e.2.value = 0 → v = [] → ¬ failed)

theorem stops_iff_zeroFree {failed : Prop} {t : Trace Call Reply} (h : Ends failed t) :
    Stops failed t ↔ ZeroFree t := by
  constructor
  · intro hstops e he hw hzero
    obtain ⟨u, v, rfl⟩ := List.append_of_mem he
    obtain ⟨hv, hfailed⟩ := hstops u e v rfl hw (by omega)
    exact (h u e v rfl hw).2 hzero hv hfailed
  · rintro hfree u e v rfl hw hle
    have hne := hfree e (by simp) hw
    exact (h u e v rfl hw).1 (by omega)

theorem Ends.congr {failed failed' : Prop} {t : Trace Call Reply} (h : Ends failed t)
    (hiff : failed ↔ failed') : Ends failed' t := by
  intro u e v ht hw
  rw [← hiff]
  exact h u e v ht hw

theorem ends_of_no_write {failed : Prop} {t : Trace Call Reply}
    (h : ∀ e ∈ t, isWrite e.1 = false) : Ends failed t := by
  rintro u e v rfl hw
  rw [h e (by simp)] at hw
  cases hw

theorem ends_append {failed failed' : Prop} {t u : Trace Call Reply} (ht : Ends failed t)
    (hon : ¬ failed) (hu : Ends failed' u) (hend : u = [] → ¬ failed') : Ends failed' (t ++ u) := by
  intro w e v htu hw
  obtain ⟨x, rfl⟩ | ⟨x, rfl, rfl⟩ := append_eq_append_cons htu
  · have hv : v = x ++ u := by simpa using htu.symm
    refine ⟨fun hneg => absurd ((ht w e x rfl hw).1 hneg).2 hon, fun _ hnil => ?_⟩
    rw [hv] at hnil
    exact hend (List.append_eq_nil_iff.mp hnil).2
  · exact hu x e v rfl hw

theorem ends_cons {failed : Prop} {e : Call × Reply} {t : Trace Call Reply}
    (he : isWrite e.1 = false) (ht : Ends failed t) : Ends failed (e :: t) := by
  intro u e' v hsplit hw
  cases u with
  | nil =>
    cases hsplit
    rw [he] at hw
    cases hw
  | cons x u =>
    cases hsplit
    exact ht u e' v rfl hw

theorem ends_of_sent {fd : Nat} {buffer : Bytes} {t : Trace Call Reply} {result : Int}
    (h : Sent fd buffer t result) : Ends (result < 0) t := by
  intro u e v ht _
  refine ⟨fun hneg => ?_, fun hzero _ => ?_⟩
  · obtain ⟨hv, hresult, _⟩ := h.cut ht (by omega)
    exact ⟨hv, by omega⟩
  · obtain ⟨_, hresult, _⟩ := h.cut ht (by omega)
    omega

/-- A loop whose turns go on after what they take for success only. -/
theorem ends_of_loop {σ α : Type} {body : σ → Sys (σ ⊕ α)} (failed : α → Prop)
    (hon : ∀ x y t, Runs (body x) t (.inl y) → Legal t → Ends False t)
    (hlast : ∀ x a t, Runs (body x) t (.inr a) → Legal t → Ends (failed a) t)
    (hcall : ∀ x r, ¬ Runs (body x) [] r) {x : σ} {t : Trace Call Reply} {a : α}
    (h : Runs (.loop body x) t a) (hl : Legal t) : Ends (failed a) t := by
  refine loop_induction (motive := fun _ t a => Legal t → Ends (failed a) t) ?_ ?_ h hl
  · intro x t a hturn hl
    exact hlast x a t hturn hl
  · intro x y t u a hturn hrest ih hl
    obtain ⟨hlt, hlu⟩ := legal_append.mp hl
    apply ends_append (hon x y t hturn hlt) not_false (ih hlu)
    rintro rfl
    obtain hlast' | ⟨_, v, w, hvw, hturn', _⟩ := runs_loop.mp hrest
    · exact absurd hlast' (hcall _ _)
    · obtain ⟨rfl, rfl⟩ := List.append_eq_nil_iff.mp hvw.symm
      exact absurd hturn' (hcall _ _)

/-- A chunk that was read, and the attempt to write it. -/
theorem ends_chunk {source count sink : Nat} {r : Reply} {t : Trace Call Reply} {n : Int}
    (h : Runs (writeAll sink r.bytes) t n) (hl : Legal ((.read source count, r) :: t)) :
    Ends (n < 0) ((.read source count, r) :: t) :=
  ends_cons rfl (ends_of_sent (sent_of_runs h (legal_cons.mp hl).2))

theorem ends_read {failed : Prop} {source count : Nat} {r : Reply} :
    Ends failed [(.read source count, r)] := ends_of_no_write (by simp [isWrite])

/-- A turn of a copy loop: a read that ends the loop, or a chunk that was read
and the attempt to write it, which ends the loop if it fails. -/
def Chunked {σ α : Type} (source count sink : Nat) (failed : α → Prop) (t : Trace Call Reply)
    (y : σ ⊕ α) : Prop :=
  ∃ r u, t = (.read source count, r) :: u ∧ (u = [] ∧ (∃ a, y = .inr a) ∨
    ∃ n, Runs (writeAll sink r.bytes) u n ∧
      (n < 0 ∧ (∃ a, y = .inr a ∧ failed a) ∨ ¬ n < 0 ∧ ∃ x, y = .inl x))

theorem ends_of_chunks {σ α : Type} {body : σ → Sys (σ ⊕ α)} (source count sink : Nat)
    (failed : α → Prop)
    (hturn : ∀ x t y, Runs (body x) t y → Chunked source count sink failed t y)
    {x : σ} {t : Trace Call Reply} {a : α} (h : Runs (.loop body x) t a) (hl : Legal t) :
    Ends (failed a) t := by
  apply ends_of_loop failed _ _ _ h hl
  · intro x y t hx hl
    obtain ⟨r, u, rfl, ⟨_, _, hy⟩ | ⟨n, hn, ⟨_, _, hy, _⟩ | ⟨hok, _⟩⟩⟩ := hturn x t _ hx
    · cases hy
    · cases hy
    · exact (ends_chunk hn hl).congr (iff_false_intro hok)
  · intro x a t hx hl
    obtain ⟨r, u, rfl, ⟨rfl, _⟩ | ⟨n, hn, ⟨hneg, _, hy, hfailed⟩ | ⟨_, _, hy⟩⟩⟩ := hturn x t _ hx
    · exact ends_read
    · cases hy
      exact (ends_chunk hn hl).congr (iff_of_true hneg hfailed)
    · cases hy
  · intro x y hx
    obtain ⟨_, _, hnil, _⟩ := hturn x [] y hx
    cases hnil

/-- A read ends the loop, or all of its bytes are written. -/
theorem copyTurn_cases {source sink : Nat} {t : Trace Call Reply} {y : Unit ⊕ CopyEnd}
    (h : Runs (copyTurn source sink ()) t y) :
    ∃ r u, t = (.read source 512, r) :: u ∧
      (r.value < 0 ∧ u = [] ∧ y = .inr .unreadable ∨ r.value = 0 ∧ u = [] ∧ y = .inr .eof ∨
        0 < r.value ∧ ∃ n, Runs (writeAll sink r.bytes) u n ∧
          y = if n < 0 then .inr .unwritable else .inl ()) := by
  obtain ⟨r, u, rfl, hu⟩ := runs_ask_bind.mp h
  refine ⟨r, u, rfl, ?_⟩
  split at hu
  · obtain ⟨rfl, rfl⟩ := runs_ret.mp hu
    exact .inl ⟨by assumption, rfl, rfl⟩
  · split at hu
    · obtain ⟨rfl, rfl⟩ := runs_ret.mp hu
      exact .inr (.inl ⟨by assumption, rfl, rfl⟩)
    · obtain ⟨v, w, n, rfl, hv, hw⟩ := runs_bind.mp hu
      obtain ⟨rfl, rfl⟩ := runs_ret.mp hw
      rw [List.append_nil]
      exact .inr (.inr ⟨by omega, n, hv, rfl⟩)

theorem ends_copyLoop {source sink : Nat} {t : Trace Call Reply} {ended : CopyEnd}
    (h : Runs (copyLoop source sink) t ended) (hl : Legal t) : Ends (ended = .unwritable) t := by
  apply ends_of_chunks source 512 sink (fun ended => ended = .unwritable) _ h hl
  intro x t y hturn
  obtain ⟨r, u, rfl, ⟨_, rfl, hy⟩ | ⟨_, rfl, hy⟩ | ⟨_, n, hn, hy⟩⟩ := copyTurn_cases hturn
  · exact ⟨r, [], rfl, .inl ⟨rfl, _, hy⟩⟩
  · exact ⟨r, [], rfl, .inl ⟨rfl, _, hy⟩⟩
  · refine ⟨r, u, rfl, .inr ⟨n, hn, ?_⟩⟩
    by_cases hneg : n < 0
    · rw [if_pos hneg] at hy
      exact .inl ⟨hneg, _, hy, rfl⟩
    · rw [if_neg hneg] at hy
      exact .inr ⟨hneg, _, hy⟩

theorem bodyTurn_cases {socket output total : Nat} {t : Trace Call Reply} {y : Nat ⊕ Bool × Nat}
    (h : Runs (bodyTurn socket output total) t y) :
    ∃ r u, t = (.read socket 1024, r) :: u ∧
      (r.value = 0 ∧ u = [] ∧ y = .inr (false, total) ∨ r.value < 0 ∧ u = [] ∧ y = .inr (true, total) ∨
        0 < r.value ∧ ∃ n, Runs (writeAll output r.bytes) u n ∧
          y = if n < 0 then .inr (true, total) else .inl ((total + r.value.toNat) % 2 ^ 64)) := by
  obtain ⟨r, u, rfl, hu⟩ := runs_ask_bind.mp h
  refine ⟨r, u, rfl, ?_⟩
  split at hu
  · obtain ⟨rfl, rfl⟩ := runs_ret.mp hu
    exact .inl ⟨by assumption, rfl, rfl⟩
  · split at hu
    · obtain ⟨rfl, rfl⟩ := runs_ret.mp hu
      exact .inr (.inl ⟨by assumption, rfl, rfl⟩)
    · obtain ⟨v, w, n, rfl, hv, hw⟩ := runs_bind.mp hu
      refine .inr (.inr ⟨by omega, n, ?_⟩)
      split at hw
      · obtain ⟨rfl, rfl⟩ := runs_ret.mp hw
        rw [List.append_nil, if_pos (by assumption)]
        exact ⟨hv, rfl⟩
      · obtain ⟨rfl, rfl⟩ := runs_ret.mp hw
        rw [List.append_nil, if_neg (by assumption)]
        exact ⟨hv, rfl⟩

theorem ends_copyBody {socket output : Nat} {t : Trace Call Reply} {result : Bool × Nat}
    (h : Runs (copyBody socket output) t result) (hl : Legal t) : Ends (result.1 = true) t := by
  apply ends_of_chunks socket 1024 output (fun result => result.1 = true) _ h hl
  intro x t y hturn
  obtain ⟨r, u, rfl, ⟨_, rfl, hy⟩ | ⟨_, rfl, hy⟩ | ⟨_, n, hn, hy⟩⟩ := bodyTurn_cases hturn
  · exact ⟨r, [], rfl, .inl ⟨rfl, _, hy⟩⟩
  · exact ⟨r, [], rfl, .inl ⟨rfl, _, hy⟩⟩
  · refine ⟨r, u, rfl, .inr ⟨n, hn, ?_⟩⟩
    by_cases hneg : n < 0
    · rw [if_pos hneg] at hy
      exact .inl ⟨hneg, _, hy, rfl⟩
    · rw [if_neg hneg] at hy
      exact .inr ⟨hneg, _, hy⟩

theorem writeEach_nil {fd : Nat} {texts : List Bytes} {sent : Bool}
    (h : Runs (writeEach fd texts) [] sent) : sent = true := by
  induction texts with
  | nil => exact (runs_ret.mp h).2
  | cons text texts ih =>
    obtain ⟨u, v, n, hnil, hu, hv⟩ := runs_bind.mp h
    obtain ⟨rfl, rfl⟩ := List.append_eq_nil_iff.mp hnil.symm
    have hn := ((sent_of_runs hu (by simp [Legal])).whole (by simp)).2
    rw [if_neg (by omega)] at hv
    exact ih hv

theorem ends_writeEach {fd : Nat} {texts : List Bytes} {t : Trace Call Reply} {sent : Bool}
    (h : Runs (writeEach fd texts) t sent) (hl : Legal t) : Ends (sent = false) t := by
  induction texts generalizing t with
  | nil =>
    obtain ⟨rfl, _⟩ := runs_ret.mp h
    exact ends_of_no_write (by simp)
  | cons text texts ih =>
    obtain ⟨u, v, n, rfl, hu, hv⟩ := runs_bind.mp h
    obtain ⟨hlu, hlv⟩ := legal_append.mp hl
    have hends := ends_of_sent (sent_of_runs hu hlu)
    split at hv
    · obtain ⟨rfl, rfl⟩ := runs_ret.mp hv
      rw [List.append_nil]
      exact hends.congr (by simpa)
    · apply ends_append hends (by assumption) (ih hv hlv)
      rintro rfl
      rw [writeEach_nil hv]
      exact Bool.noConfusion

/-! ## What is moved -/

theorem whole_iff_zeroFree {fd : Nat} {buffer : Bytes} {t : Trace Call Reply} {result : Int}
    (h : Sent fd buffer t result) : (0 ≤ result → accepted fd t = buffer) ↔ ZeroFree t := by
  constructor
  · intro hwhole e he _ hzero
    obtain ⟨u, v, rfl⟩ := List.append_of_mem he
    obtain ⟨_, hresult, hlen⟩ := h.cut rfl (by omega)
    rw [hwhole (by omega)] at hlen
    omega
  · intro hfree hresult
    refine (h.whole fun e he => Decidable.byContradiction fun hle => ?_).1
    obtain ⟨u, v, rfl⟩ := List.append_of_mem he
    obtain ⟨_, hcut, _⟩ := h.cut rfl (by omega)
    obtain ⟨bytes, hw⟩ := h.writes e he
    have := hfree e he (by rw [hw]; rfl)
    omega

/-- The bytes read from a descriptor. -/
def received (fd : Nat) (t : Trace Call Reply) : Bytes :=
  t.flatMap fun e => match e.1 with
    | .read d _ => if d = fd then e.2.bytes else []
    | _ => []

def isRead : Call → Bool
  | .read _ _ => true
  | _ => false

@[simp] theorem received_nil (fd : Nat) : received fd [] = [] := rfl

@[simp] theorem received_append (fd : Nat) (t u : Trace Call Reply) :
    received fd (t ++ u) = received fd t ++ received fd u := List.flatMap_append

theorem received_cons (fd : Nat) (e : Call × Reply) (t : Trace Call Reply) :
    received fd (e :: t) = received fd [e] ++ received fd t := received_append fd [e] t

theorem zeroFree_append {t u : Trace Call Reply} : ZeroFree (t ++ u) ↔ ZeroFree t ∧ ZeroFree u := by
  simp only [ZeroFree, List.mem_append, or_imp, forall_and]

theorem zeroFree_cons {e : Call × Reply} {t : Trace Call Reply} (he : isWrite e.1 = false) :
    ZeroFree (e :: t) ↔ ZeroFree t := by
  simp [ZeroFree, he]

/-- A run of `write_all` neither reads nor writes elsewhere. -/
theorem Sent.elsewhere {fd d : Nat} {buffer : Bytes} {t : Trace Call Reply} {result : Int}
    (h : Sent fd buffer t result) : received d t = [] ∧ (d ≠ fd → accepted d t = []) := by
  constructor
  · apply List.flatMap_eq_nil_iff.mpr
    intro e he
    obtain ⟨bytes, hw⟩ := h.writes e he
    rw [hw]
  · refine fun hd => List.flatMap_eq_nil_iff.mpr fun e he => ?_
    obtain ⟨bytes, hw⟩ := h.writes e he
    rw [hw]
    exact if_neg (Ne.symm hd)

/-- A success of `write_all` saw no failure. -/
theorem Sent.nonneg {fd : Nat} {buffer : Bytes} {t : Trace Call Reply} {result : Int}
    (h : Sent fd buffer t result) (hresult : 0 ≤ result) : ∀ e ∈ t, 0 ≤ e.2.value := by
  intro e he
  apply Decidable.byContradiction
  intro hneg
  obtain ⟨u, v, rfl⟩ := List.append_of_mem he
  obtain ⟨_, hcut, _⟩ := h.cut rfl (by omega)
  omega

/-- A failure of `write_all` is its last write. -/
theorem Sent.fails {fd : Nat} {buffer : Bytes} {t : Trace Call Reply} {result : Int}
    (h : Sent fd buffer t result) (hresult : result < 0) :
    ∃ u e, t = u ++ [e] ∧ (∀ x ∈ u, 0 ≤ x.2.value) ∧ isRead e.1 = false ∧ e.2.value < 0 := by
  have hsome : ∃ e ∈ t, e.2.value ≤ 0 := by
    apply Decidable.byContradiction
    intro hnone
    have := (h.whole fun e he => Decidable.byContradiction fun hle =>
      hnone ⟨e, he, by omega⟩).2
    omega
  obtain ⟨e, he, hle⟩ := hsome
  obtain ⟨bytes, hw⟩ := h.writes e he
  obtain ⟨u, v, rfl⟩ := List.append_of_mem he
  obtain ⟨rfl, hcut, _⟩ := h.cut rfl hle
  refine ⟨u, e, rfl, fun x hx => Decidable.byContradiction fun hneg => ?_, by rw [hw]; rfl, by omega⟩
  obtain ⟨u', v', rfl⟩ := List.append_of_mem hx
  obtain ⟨hnil, _⟩ := h.cut (List.append_assoc u' (x :: v') [e]) (by omega)
  simp at hnil

/-- What a stretch between two reads has moved: nothing failed, nothing went
elsewhere, and no byte is lost unless a write was answered with zero. -/
structure Moved (source sink : Nat) (t : Trace Call Reply) : Prop where
  nonneg : ∀ e ∈ t, 0 ≤ e.2.value
  only : ∀ d, (d ≠ source → received d t = []) ∧ (d ≠ sink → accepted d t = [])
  whole : ZeroFree t → accepted sink t = received source t
  short : ¬ ZeroFree t → (accepted sink t).length < (received source t).length

theorem moved_nil {source sink : Nat} : Moved source sink [] :=
  ⟨by simp, by simp, fun _ => rfl, fun h => absurd (by simp [ZeroFree]) h⟩

theorem Moved.length_le {source sink : Nat} {t : Trace Call Reply} (h : Moved source sink t) :
    (accepted sink t).length ≤ (received source t).length := by
  by_cases hfree : ZeroFree t
  · exact Nat.le_of_eq (congrArg List.length (h.whole hfree))
  · exact Nat.le_of_lt (h.short hfree)

theorem moved_append {source sink : Nat} {t u : Trace Call Reply} (ht : Moved source sink t)
    (hu : Moved source sink u) : Moved source sink (t ++ u) := by
  constructor
  · simp only [List.mem_append, or_imp, forall_and]
    exact ⟨ht.nonneg, hu.nonneg⟩
  · intro d
    simp only [received_append, accepted_append, List.append_eq_nil_iff]
    exact ⟨fun hd => ⟨(ht.only d).1 hd, (hu.only d).1 hd⟩,
      fun hd => ⟨(ht.only d).2 hd, (hu.only d).2 hd⟩⟩
  · intro hfree
    obtain ⟨hft, hfu⟩ := zeroFree_append.mp hfree
    rw [accepted_append, received_append, ht.whole hft, hu.whole hfu]
  · intro hzero
    simp only [accepted_append, received_append, List.length_append]
    have hlt := ht.length_le
    have hlu := hu.length_le
    by_cases hft : ZeroFree t
    · have := hu.short fun hfu => hzero (zeroFree_append.mpr ⟨hft, hfu⟩)
      omega
    · have := ht.short hft
      omega

/-- A chunk that was read, and what `write_all` took for a success. -/
theorem moved_chunk {source sink count : Nat} {r : Reply} {t : Trace Call Reply} {n : Int}
    (hr : 0 < r.value) (h : Runs (writeAll sink r.bytes) t n) (hn : 0 ≤ n)
    (hl : Legal ((.read source count, r) :: t)) :
    Moved source sink ((.read source count, r) :: t) := by
  have hsent := sent_of_runs h (legal_cons.mp hl).2
  have hacc : ∀ d, accepted d ((.read source count, r) :: t) = accepted d t := fun d => rfl
  have hrec : ∀ d, received d ((.read source count, r) :: t) =
      if source = d then r.bytes else [] := by
    intro d
    rw [received_cons, hsent.elsewhere.1]
    simp [received]
  have hwhole : accepted sink t = r.bytes ↔ ZeroFree t :=
    ⟨fun h => (whole_iff_zeroFree hsent).mp fun _ => h, fun h => (whole_iff_zeroFree hsent).mpr h hn⟩
  refine ⟨?_, fun d => ⟨fun hd => ?_, fun hd => ?_⟩, fun hfree => ?_, fun hzero => ?_⟩
  · simp only [List.mem_cons, forall_eq_or_imp]
    exact ⟨by omega, hsent.nonneg hn⟩
  · rw [hrec, if_neg (Ne.symm hd)]
  · rw [hacc]
    exact hsent.elsewhere.2 hd
  · rw [hacc, hrec, if_pos rfl]
    exact hwhole.mpr ((zeroFree_cons rfl).mp hfree)
  · rw [hacc, hrec, if_pos rfl]
    have hle := hsent.sent.length_le
    have hne : (accepted sink t).length ≠ r.bytes.length := fun heq =>
      hzero ((zeroFree_cons rfl).mpr (hwhole.mp (hsent.sent.eq_of_length heq)))
    omega

/-! ## The relay -/

theorem pump_cases {source sink : Nat} {t : Trace Call Reply} {y : Option Int}
    (h : Runs (pump source sink) t y) :
    ∃ r u, t = (.read source 512, r) :: u ∧ (r.value ≤ 0 ∧ u = [] ∧ y = some 0 ∨
      0 < r.value ∧ ∃ n, Runs (writeAll sink r.bytes) u n ∧ y = if n < 0 then some (-1) else none) := by
  obtain ⟨r, u, rfl, hu⟩ := runs_ask_bind.mp h
  refine ⟨r, u, rfl, ?_⟩
  split at hu
  · obtain ⟨rfl, rfl⟩ := runs_ret.mp hu
    exact .inl ⟨by assumption, rfl, rfl⟩
  · obtain ⟨v, w, n, rfl, hv, hw⟩ := runs_bind.mp hu
    obtain ⟨rfl, rfl⟩ := runs_ret.mp hw
    rw [List.append_nil]
    exact .inr ⟨by omega, n, hv, rfl⟩

/-- What one side of a round did: nothing, or a chunk. -/
def Pumped (source sink : Nat) (t : Trace Call Reply) (y : Option Int) : Prop :=
  t = [] ∧ y = none ∨ Runs (pump source sink) t y

/-- One round: the poll, the socket's side, the console's side. -/
theorem relayTurn_cases {socket : Nat} {t : Trace Call Reply} {y : Unit ⊕ Int}
    (h : Runs (relayTurn socket ()) t y) :
    ∃ r u, t = (.ppoll [(0, pollin), (socket, pollin)] none, r) :: u ∧
      (r.value < 0 ∧ u = [] ∧ y = .inr (-1) ∨
        0 ≤ r.value ∧ ((∃ result, Pumped socket 1 u (some result) ∧ y = .inr result) ∨
          ∃ v w second, u = v ++ w ∧ Pumped socket 1 v none ∧ Pumped 0 socket w second ∧
            y = second.elim (.inl ()) .inr)) := by
  have hside : ∀ {c : Prop} [Decidable c] {source sink : Nat} {t : Trace Call Reply} {y : Option Int},
      Runs (if c then pump source sink else pure none) t y → Pumped source sink t y := by
    intro c _ source sink t y h
    split at h
    · exact .inr h
    · exact .inl (runs_ret.mp h)
  obtain ⟨r, u, rfl, hu⟩ := runs_ask_bind.mp h
  refine ⟨r, u, rfl, ?_⟩
  split at hu
  · obtain ⟨rfl, rfl⟩ := runs_ret.mp hu
    exact .inl ⟨by assumption, rfl, rfl⟩
  · obtain ⟨v, x, first, rfl, hv, hx⟩ := runs_bind.mp hu
    refine .inr ⟨by omega, ?_⟩
    cases first with
    | some result =>
      obtain ⟨rfl, rfl⟩ := runs_ret.mp hx
      rw [List.append_nil]
      exact .inl ⟨result, hside hv, rfl⟩
    | none =>
      obtain ⟨w, x, second, rfl, hw, hx⟩ := runs_bind.mp hx
      refine .inr ⟨v, w, second, ?_⟩
      cases second with
      | some result =>
        obtain ⟨rfl, rfl⟩ := runs_ret.mp hx
        rw [List.append_nil]
        exact ⟨rfl, hside hv, hside hw, rfl⟩
      | none =>
        obtain ⟨rfl, rfl⟩ := runs_ret.mp hx
        rw [List.append_nil]
        exact ⟨rfl, hside hv, hside hw, rfl⟩

theorem ends_pumped {source sink : Nat} {t : Trace Call Reply} {y : Option Int}
    (h : Pumped source sink t y) (hl : Legal t) : Ends (y = some (-1)) t := by
  obtain ⟨rfl, _⟩ | h := h
  · exact ends_of_no_write (by simp)
  · obtain ⟨r, u, rfl, ⟨_, rfl, _⟩ | ⟨_, n, hn, hy⟩⟩ := pump_cases h
    · exact ends_read
    · apply (ends_chunk hn hl).congr
      rw [hy]
      simp

theorem pumped_nil {source sink : Nat} {y : Option Int} (h : Pumped source sink [] y) : y = none := by
  obtain ⟨_, hy⟩ | h := h
  · exact hy
  · obtain ⟨_, _, hnil, _⟩ := pump_cases h
    cases hnil

theorem ends_ncRelay {socket : Nat} {t : Trace Call Reply} {result : Int}
    (h : Runs (ncRelay socket) t result) (hl : Legal t) : Ends (result = -1) t := by
  refine ends_of_loop (fun result => result = -1) ?_ ?_ ?_ h hl
  · intro x y t hturn hl
    obtain ⟨r, u, rfl, ⟨_, _, hy⟩ | ⟨_, ⟨_, _, hy⟩ | ⟨v, w, second, rfl, hv, hw, hy⟩⟩⟩ :=
      relayTurn_cases hturn
    · cases hy
    · cases hy
    · cases second with
      | some result => cases hy
      | none =>
        obtain ⟨hlv, hlw⟩ := legal_append.mp (legal_cons.mp hl).2
        refine ends_cons rfl (ends_append (ends_pumped hv hlv) (by simp) ?_ fun _ => not_false)
        exact (ends_pumped hw hlw).congr (by simp)
  · intro x a t hturn hl
    obtain ⟨r, u, rfl, ⟨_, rfl, hy⟩ | ⟨_, ⟨result, hu, hy⟩ | ⟨v, w, second, rfl, hv, hw, hy⟩⟩⟩ :=
      relayTurn_cases hturn
    · exact ends_of_no_write (by simp [isWrite])
    · cases hy
      exact ends_cons rfl ((ends_pumped hu (legal_cons.mp hl).2).congr (by simp))
    · cases second with
      | none => cases hy
      | some result =>
        cases hy
        obtain ⟨hlv, hlw⟩ := legal_append.mp (legal_cons.mp hl).2
        refine ends_cons rfl (ends_append (ends_pumped hv hlv) (by simp)
          ((ends_pumped hw hlw).congr (by simp)) ?_)
        rintro rfl
        cases pumped_nil hw
  · intro x r hturn
    obtain ⟨_, _, hnil, _⟩ := relayTurn_cases hturn
    cases hnil

/-! ## Incomplete writes -/

/-- `write_all` hands over a prefix and calls it a success only if it is the
whole buffer, and its callers end with a failure at an incomplete write, exactly
when no write is answered with zero. -/
theorem incomplete_writes_stop_iff {t : Trace Call Reply} (hl : Legal t) :
    (∀ fd buffer result, Runs (writeAll fd buffer) t result →
      accepted fd t <+: buffer ∧ ((0 ≤ result → accepted fd t = buffer) ↔ ZeroFree t)) ∧
    (∀ source sink ended, Runs (copyLoop source sink) t ended →
      (Stops (ended = .unwritable) t ↔ ZeroFree t)) ∧
    (∀ socket output failed total, Runs (copyBody socket output) t (failed, total) →
      (Stops (failed = true) t ↔ ZeroFree t)) ∧
    (∀ socket host path sent, Runs (sendRequest socket host path) t sent →
      (Stops (sent = false) t ↔ ZeroFree t)) ∧
    ∀ socket result, Runs (ncRelay socket) t result →
      (Stops (result = -1) t ↔ ZeroFree t) := by
  refine ⟨?_, ?_, ?_, ?_, ?_⟩
  · intro fd buffer result h
    exact ⟨(sent_of_runs h hl).sent, whole_iff_zeroFree (sent_of_runs h hl)⟩
  · intro source sink ended h
    exact stops_iff_zeroFree (ends_copyLoop h hl)
  · intro socket output failed total h
    exact stops_iff_zeroFree (ends_copyBody h hl)
  · intro socket host path sent h
    exact stops_iff_zeroFree (ends_writeEach h hl)
  · intro socket result h
    exact stops_iff_zeroFree (ends_ncRelay h hl)

/-- Three bytes in two writes. -/
theorem short_writes_complete :
    Runs (writeAll 4 (ascii "hi!")) [(.write 4 (ascii "hi!"), ⟨2, [], []⟩),
        (.write 4 (ascii "!"), ⟨1, [], []⟩)] 3 ∧
      accepted 4 [(.write 4 (ascii "hi!"), ⟨2, [], []⟩), (.write 4 (ascii "!"), ⟨1, [], []⟩)] =
        ascii "hi!" := by
  have hexec : exec scripted 3 (writeAll 4 (ascii "hi!")) [⟨2, [], []⟩, ⟨1, [], []⟩] =
      some (3, [(.write 4 (ascii "hi!"), ⟨2, [], []⟩), (.write 4 (ascii "!"), ⟨1, [], []⟩)], []) := by
    decide +kernel
  have hruns := (exec_sound hexec).1
  have hwhole := ((incomplete_writes_stop_iff (by decide)).1 _ _ _ hruns).2
  exact ⟨hruns, hwhole.mpr (by decide) (by decide)⟩

/-- A write answered with zero counts as a success, and `cp` goes on reading. -/
theorem zero_write_goes_on :
    (∃ t, Runs (writeAll 4 (ascii "h")) t 0 ∧ Legal t ∧ accepted 4 t = []) ∧
      ∃ t u v, Runs (copyLoop 3 4) t .eof ∧ Legal t ∧
        t = u ++ (.write 4 (ascii "h"), ⟨0, [], []⟩) :: v ∧ v ≠ [] := by
  have hall : exec scripted 1 (writeAll 4 (ascii "h")) [⟨0, [], []⟩] =
      some (0, [(.write 4 (ascii "h"), ⟨0, [], []⟩)], []) := by decide +kernel
  have hcopy : exec scripted 3 (copyLoop 3 4) [⟨1, ascii "h", []⟩, ⟨0, [], []⟩, ⟨0, [], []⟩] =
      some (.eof, [(.read 3 512, ⟨1, ascii "h", []⟩), (.write 4 (ascii "h"), ⟨0, [], []⟩),
        (.read 3 512, ⟨0, [], []⟩)], []) := by decide +kernel
  exact ⟨⟨_, (exec_sound hall).1, by decide, by decide⟩, _, [(.read 3 512, ⟨1, ascii "h", []⟩)],
    [(.read 3 512, ⟨0, [], []⟩)], (exec_sound hcopy).1, by decide, rfl, List.cons_ne_nil _ _⟩

end LinuxBuild.Payload
