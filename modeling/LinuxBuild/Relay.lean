import LinuxBuild.Writes

/-!
# The relay of `nc`

Two streams through one buffer. Rounds that go on have moved every byte they
read, unless a write was answered with zero; a failing poll or write ends the
relay with -1. A read that fails ends it like an end of file.
-/

namespace LinuxBuild.Payload

open Interaction

/-! ## What a stretch of the relay has moved -/

structure Relayed (socket : Nat) (t : Trace Call Reply) : Prop where
  outward : (accepted 1 t).length ≤ (received socket t).length
  inward : (accepted socket t).length ≤ (received 0 t).length
  whole : ZeroFree t → accepted 1 t = received socket t ∧ accepted socket t = received 0 t
  short : ¬ ZeroFree t → (accepted 1 t).length + (accepted socket t).length <
    (received socket t).length + (received 0 t).length

theorem relayed_append {socket : Nat} {t u : Trace Call Reply} (ht : Relayed socket t)
    (hu : Relayed socket u) : Relayed socket (t ++ u) := by
  have ho := ht.outward
  have hi := ht.inward
  have ho' := hu.outward
  have hi' := hu.inward
  constructor
  · simp only [accepted_append, received_append, List.length_append]
    omega
  · simp only [accepted_append, received_append, List.length_append]
    omega
  · intro hfree
    obtain ⟨hft, hfu⟩ := zeroFree_append.mp hfree
    obtain ⟨h₁, h₂⟩ := ht.whole hft
    obtain ⟨h₃, h₄⟩ := hu.whole hfu
    simp only [accepted_append, received_append, h₁, h₂, h₃, h₄, and_self]
  · intro hzero
    simp only [accepted_append, received_append, List.length_append]
    by_cases hft : ZeroFree t
    · have := hu.short fun hfu => hzero (zeroFree_append.mpr ⟨hft, hfu⟩)
      omega
    · have := ht.short hft
      omega

/-- A call that moves nothing. -/
theorem relayed_idle {socket : Nat} {e : Call × Reply} (hw : isWrite e.1 = false)
    (hr : isRead e.1 = true → e.2.value ≤ 0) : Relayed socket [e] := by
  have hacc : ∀ d, accepted d [e] = [] := by
    intro d
    obtain ⟨c, r⟩ := e
    cases c with
    | write => cases hw
    | _ => rfl
  have hrec : ∀ d, received d [e] = [] := by
    intro d
    obtain ⟨c, r⟩ := e
    cases c with
    | read fd count =>
      have hzero : r.value.toNat = 0 := Int.toNat_eq_zero.mpr (hr rfl)
      simp [received, Reply.bytes, hzero]
    | _ => rfl
  have hfree : ZeroFree [e] := (zeroFree_cons hw).mpr (by simp [ZeroFree])
  constructor
  · simp only [hacc, hrec, Nat.le_refl]
  · simp only [hacc, hrec, Nat.le_refl]
  · simp only [hacc, hrec, and_self, implies_true]
  · exact fun hzero => absurd hfree hzero

/-- One side of a round that goes on. -/
theorem moved_of_pumped {source sink : Nat} {t : Trace Call Reply}
    (h : Pumped source sink t none) (hl : Legal t) : Moved source sink t := by
  obtain ⟨rfl, _⟩ | h := h
  · exact moved_nil
  · obtain ⟨r, u, rfl, ⟨_, _, hy⟩ | ⟨hr, n, hn, hy⟩⟩ := pump_cases h
    · cases hy
    · split at hy
      · cases hy
      · exact moved_chunk hr hn (Int.not_lt.mp (by assumption)) hl

theorem relayed_outward {socket : Nat} {t : Trace Call Reply} (hin : socket ≠ 0) (hout : socket ≠ 1)
    (h : Moved socket 1 t) : Relayed socket t := by
  have hr : received 0 t = [] := (h.only 0).1 (Ne.symm hin)
  have ha : accepted socket t = [] := (h.only socket).2 hout
  refine ⟨h.length_le, by simp [ha], fun hfree => ⟨h.whole hfree, by rw [ha, hr]⟩,
    fun hzero => ?_⟩
  rw [ha, hr]
  exact Nat.add_lt_add_right (h.short hzero) _

theorem relayed_inward {socket : Nat} {t : Trace Call Reply} (hin : socket ≠ 0) (hout : socket ≠ 1)
    (h : Moved 0 socket t) : Relayed socket t := by
  have hr : received socket t = [] := (h.only socket).1 hin
  have ha : accepted 1 t = [] := (h.only 1).2 (Ne.symm hout)
  refine ⟨by simp [ha], h.length_le, fun hfree => ⟨by rw [ha, hr], h.whole hfree⟩,
    fun hzero => ?_⟩
  rw [ha, hr]
  exact Nat.add_lt_add_left (h.short hzero) _

/-! ## How the relay ends -/

/-- Every call but the last is answered well. That one is a poll or a write that
failed, or a read without bytes. -/
def RelayEnds (socket : Nat) (t : Trace Call Reply) (result : Int) : Prop :=
  ∃ u e, t = u ++ [e] ∧ (∀ x ∈ u, 0 ≤ x.2.value) ∧
    (result = -1 ∧ isRead e.1 = false ∧ e.2.value < 0 ∨
      result = 0 ∧ isRead e.1 = true ∧ e.2.value ≤ 0 ∧ Relayed socket t)

theorem RelayEnds.after {socket : Nat} {t u : Trace Call Reply} {result : Int}
    (h : RelayEnds socket u result) (ht : Relayed socket t) (hnonneg : ∀ e ∈ t, 0 ≤ e.2.value) :
    RelayEnds socket (t ++ u) result := by
  obtain ⟨v, e, rfl, hv, hend⟩ := h
  refine ⟨t ++ v, e, (List.append_assoc t v [e]).symm, ?_, ?_⟩
  · simp only [List.mem_append, or_imp, forall_and]
    exact ⟨hnonneg, hv⟩
  · obtain hfailed | ⟨hresult, hread, hle, hmoved⟩ := hend
    · exact .inl hfailed
    · exact .inr ⟨hresult, hread, hle, relayed_append ht hmoved⟩

/-- One side of a round that ends the relay. -/
theorem pumped_ends {source sink socket : Nat} {t : Trace Call Reply} {result : Int}
    (h : Pumped source sink t (some result)) (hl : Legal t) : RelayEnds socket t result := by
  obtain ⟨_, hy⟩ | h := h
  · cases hy
  · obtain ⟨r, u, rfl, ⟨hr, rfl, hy⟩ | ⟨hr, n, hn, hy⟩⟩ := pump_cases h
    · cases hy
      exact ⟨[], _, rfl, by simp, .inr ⟨rfl, rfl, hr, relayed_idle rfl fun _ => hr⟩⟩
    · split at hy
      · cases hy
        obtain ⟨v, e, rfl, hv, hread, hneg⟩ :=
          (sent_of_runs hn (legal_cons.mp hl).2).fails (by assumption)
        refine ⟨(.read source 512, r) :: v, e, rfl, ?_, .inl ⟨rfl, hread, hneg⟩⟩
        simp only [List.mem_cons, forall_eq_or_imp]
        exact ⟨by omega, hv⟩
      · cases hy

theorem relayed_poll {socket : Nat} {fds : List (Nat × Nat)} {seconds : Option Nat} {r : Reply} :
    Relayed socket [(.ppoll fds seconds, r)] := relayed_idle rfl nofun

/-- A round that goes on. -/
theorem relayTurn_goes_on {socket : Nat} {t : Trace Call Reply} (hin : socket ≠ 0)
    (hout : socket ≠ 1) (h : Runs (relayTurn socket ()) t (.inl ())) (hl : Legal t) :
    Relayed socket t ∧ ∀ e ∈ t, 0 ≤ e.2.value := by
  obtain ⟨r, u, rfl, ⟨_, _, hy⟩ | ⟨hr, ⟨_, _, hy⟩ | ⟨v, w, second, rfl, hv, hw, hy⟩⟩⟩ :=
    relayTurn_cases h
  · cases hy
  · cases hy
  · cases second with
    | some result => cases hy
    | none =>
      obtain ⟨hlv, hlw⟩ := legal_append.mp (legal_cons.mp hl).2
      have hmv := moved_of_pumped hv hlv
      have hmw := moved_of_pumped hw hlw
      refine ⟨relayed_append relayed_poll (relayed_append (relayed_outward hin hout hmv)
        (relayed_inward hin hout hmw)), ?_⟩
      simp only [List.mem_cons, List.mem_append, or_imp, forall_and, forall_eq]
      exact ⟨hr, hmv.nonneg, hmw.nonneg⟩

/-- A round that ends the relay. -/
theorem relayTurn_ends {socket : Nat} {t : Trace Call Reply} {result : Int} (hin : socket ≠ 0)
    (hout : socket ≠ 1) (h : Runs (relayTurn socket ()) t (.inr result)) (hl : Legal t) :
    RelayEnds socket t result := by
  obtain ⟨r, u, rfl, ⟨hr, rfl, hy⟩ | ⟨hr, hside⟩⟩ := relayTurn_cases h
  · cases hy
    exact ⟨[], _, rfl, by simp, .inl ⟨rfl, rfl, hr⟩⟩
  · have hpoll : ∀ e ∈ [((.ppoll [(0, pollin), (socket, pollin)] none, r) : Call × Reply)],
        0 ≤ e.2.value := by simpa using hr
    obtain ⟨_, hl⟩ := legal_cons.mp hl
    obtain ⟨result', hu, hy⟩ | ⟨v, w, second, rfl, hv, hw, hy⟩ := hside
    · cases hy
      exact (pumped_ends hu hl).after relayed_poll hpoll
    · cases second with
      | none => cases hy
      | some result' =>
        cases hy
        obtain ⟨hlv, hlw⟩ := legal_append.mp hl
        have hmv := moved_of_pumped hv hlv
        exact ((pumped_ends hw hlw).after (relayed_outward hin hout hmv) hmv.nonneg).after
          relayed_poll hpoll

theorem ncRelay_ends {socket : Nat} {t : Trace Call Reply} {result : Int} (hin : socket ≠ 0)
    (hout : socket ≠ 1) (h : Runs (ncRelay socket) t result) (hl : Legal t) :
    RelayEnds socket t result := by
  refine loop_induction (motive := fun _ t result => Legal t → RelayEnds socket t result) ?_ ?_ h hl
  · intro x t result hturn hl
    exact relayTurn_ends hin hout hturn hl
  · intro x y t u result hturn _ ih hl
    obtain ⟨hlt, hlu⟩ := legal_append.mp hl
    obtain ⟨hmoved, hnonneg⟩ := relayTurn_goes_on hin hout hturn hlt
    exact (ih hlu).after hmoved hnonneg

/-- The relay ends with 0 at an end of file only, with every byte of both
streams delivered, and with -1 whenever a call fails, exactly when no read
fails and no write is answered with zero unless a poll or a write fails. -/
theorem relay_delivers_iff {socket : Nat} {t : Trace Call Reply} {result : Int}
    (hin : socket ≠ 0) (hout : socket ≠ 1) (h : Runs (ncRelay socket) t result) (hl : Legal t) :
    ((result = 0 → (∃ u e, t = u ++ [e] ∧ isRead e.1 = true ∧ e.2.value = 0) ∧
          accepted 1 t = received socket t ∧ accepted socket t = received 0 t) ∧
        ((∃ e ∈ t, e.2.value < 0) → result = -1)) ↔
      (∀ e ∈ t, isRead e.1 = true → 0 ≤ e.2.value) ∧
        (¬ ZeroFree t → ∃ e ∈ t, isRead e.1 = false ∧ e.2.value < 0) := by
  obtain ⟨u, e, rfl, hnonneg, hend⟩ := ncRelay_ends hin hout h hl
  have hother : ∀ x ∈ u ++ [e], x.2.value < 0 → x = e := by
    intro x hx hneg
    rw [List.mem_append, List.mem_singleton] at hx
    obtain hx | hx := hx
    · have := hnonneg x hx
      omega
    · exact hx
  have he : e ∈ u ++ [e] := List.mem_append_right _ List.mem_cons_self
  obtain ⟨rfl, hread, hneg⟩ | ⟨rfl, hread, hle, hmoved⟩ := hend
  · refine ⟨fun _ => ⟨fun x hx hr => ?_, fun _ => ⟨e, he, hread, hneg⟩⟩, fun _ => ⟨?_, fun _ => rfl⟩⟩
    · apply Decidable.byContradiction
      intro hx'
      rw [hother x hx (by omega), hread] at hr
      cases hr
    · intro h
      cases h
  · constructor
    · rintro ⟨hzero, hfails⟩
      have heof : 0 ≤ e.2.value := by
        apply Decidable.byContradiction
        intro hneg
        cases hfails ⟨e, he, by omega⟩
      refine ⟨fun x hx _ => Decidable.byContradiction fun hneg => ?_, fun hshort => ?_⟩
      · rw [hother x hx (by omega)] at hneg
        exact hneg heof
      · obtain ⟨_, hout', hin'⟩ := hzero rfl
        have := hmoved.short hshort
        rw [hout', hin'] at this
        omega
    · rintro ⟨hreads, hshort⟩
      have heof := hreads e he hread
      have hnone : ¬ ∃ x ∈ u ++ [e], x.2.value < 0 := by
        rintro ⟨x, hx, hneg⟩
        rw [hother x hx hneg] at hneg
        omega
      refine ⟨fun _ => ⟨⟨u, e, rfl, hread, by omega⟩, ?_⟩, fun hfail => absurd hfail hnone⟩
      apply hmoved.whole
      apply Decidable.byContradiction
      intro hnot
      obtain ⟨x, hx, _, hneg⟩ := hshort hnot
      exact hnone ⟨x, hx, hneg⟩

/-- Both sides ready, a short write, then the end of the connection. -/
def conversation : List Reply :=
  [⟨2, [], [1, 1]⟩, ⟨3, ascii "hi!", []⟩, ⟨2, [], []⟩, ⟨1, [], []⟩, ⟨1, ascii "x", []⟩, ⟨1, [], []⟩,
    ⟨1, [], [0, 16]⟩, ⟨0, [], []⟩]

def conversationTrace : Trace Call Reply :=
  [(.ppoll [(0, pollin), (3, pollin)] none, ⟨2, [], [1, 1]⟩), (.read 3 512, ⟨3, ascii "hi!", []⟩),
    (.write 1 (ascii "hi!"), ⟨2, [], []⟩), (.write 1 (ascii "!"), ⟨1, [], []⟩),
    (.read 0 512, ⟨1, ascii "x", []⟩), (.write 3 (ascii "x"), ⟨1, [], []⟩),
    (.ppoll [(0, pollin), (3, pollin)] none, ⟨1, [], [0, 16]⟩), (.read 3 512, ⟨0, [], []⟩)]

theorem conversation_delivered :
    Runs (ncRelay 3) conversationTrace 0 ∧
      accepted 1 conversationTrace = received 3 conversationTrace ∧
      accepted 3 conversationTrace = received 0 conversationTrace := by
  have hexec : exec scripted 3 (ncRelay 3) conversation = some (0, conversationTrace, []) := by
    decide +kernel
  have hruns := (exec_sound hexec).1
  have hiff := relay_delivers_iff (by decide) (by decide) hruns (by decide)
  exact ⟨hruns, ((hiff.mpr ⟨by decide, fun h => absurd (by decide) h⟩).1 rfl).2⟩

/-- A connection that was reset ends the relay like an end of file. -/
theorem reset_relay_succeeds :
    Runs (ncRelay 3) [(.ppoll [(0, pollin), (3, pollin)] none, ⟨1, [], [0, 9]⟩),
        (.read 3 512, ⟨-104, [], []⟩)] 0 ∧
      Legal [(.ppoll [(0, pollin), (3, pollin)] none, ⟨1, [], [0, 9]⟩),
        (.read 3 512, ⟨-104, [], []⟩)] := by
  have hexec : exec scripted 1 (ncRelay 3) [⟨1, [], [0, 9]⟩, ⟨-104, [], []⟩] =
      some (0, [(.ppoll [(0, pollin), (3, pollin)] none, ⟨1, [], [0, 9]⟩),
        (.read 3 512, ⟨-104, [], []⟩)], []) := by decide +kernel
  exact ⟨(exec_sound hexec).1, by decide⟩

end LinuxBuild.Payload
