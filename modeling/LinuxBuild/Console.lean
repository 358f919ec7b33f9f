import LinuxBuild.Fragment
import LinuxBuild.Utf8

/-!
# Console text

`clean` of `test-packages.py`, and when a failure marker stands in what has
been printed so far.
-/

namespace LinuxBuild.Console

def escape : Char := '\x1b'

def isParameter (c : Char) : Bool := 0x30 ≤ c.toNat && c.toNat ≤ 0x3f
def isIntermediate (c : Char) : Bool := 0x20 ≤ c.toNat && c.toNat ≤ 0x2f
def isFinal (c : Char) : Bool := 0x40 ≤ c.toNat && c.toNat ≤ 0x7e

/-- How much of the text after an escape character belongs to its sequence:
a bracket, parameters, intermediates and a final character. -/
def sequenceLength : Text → Option Nat
  | '[' :: rest =>
    let tail := rest.dropWhile isParameter
    match tail.dropWhile isIntermediate with
    | c :: _ =>
      if isFinal c then
        some (2 + (rest.takeWhile isParameter).length + (tail.takeWhile isIntermediate).length)
      else none
    | [] => none
  | _ => none

/-- `re.sub` with nothing in place of each match. -/
def stripFrom : Nat → Text → Text
  | _, [] => []
  | skip + 1, _ :: rest => stripFrom skip rest
  | 0, c :: rest =>
    if c = escape then
      match sequenceLength rest with
      | some length => stripFrom length rest
      | none => c :: stripFrom 0 rest
    else c :: stripFrom 0 rest

def strip (text : Text) : Text := stripFrom 0 text

def dropReturns (text : Text) : Text := text.filter (· ≠ '\r')

def clean (text : Text) : Text := dropReturns (strip text)

/-- `Guest.text`. -/
def textOf (raw : Bytes) : Text := clean (Utf8.decode raw)

def failures : List Text :=
  [text "Kernel panic", text "Oops:", text "Unable to handle kernel", text "BUG:",
   text "No working init found", text "Attempted to kill init", text "rcu: INFO:"]

/-- `marker in text`. -/
def contains : Text → Text → Bool
  | marker, [] => marker.isEmpty
  | marker, c :: rest => marker.isPrefixOf (c :: rest) || contains marker rest

def failureIn (text : Text) : Bool := failures.any fun marker => contains marker text

theorem contains_iff (marker text : Text) : contains marker text = true ↔ marker <:+: text := by
  induction text with
  | nil => cases marker <;> simp [contains]
  | cons c rest ih => simp [contains, ih, List.infix_cons_iff]

theorem failureIn_iff (text : Text) :
    failureIn text = true ↔ ∃ marker ∈ failures, marker <:+: text := by
  simp [failureIn, contains_iff]

/-! ## Escape sequences -/

/-- Nothing, or a start of a sequence without its final character. -/
def Unfinished (u : Text) : Prop :=
  u = [] ∨ u = [escape] ∨
    ∃ z : Text, (∀ c ∈ z, isParameter c = true ∨ isIntermediate c = true) ∧ u = escape :: '[' :: z

theorem stripFrom_skip (n : Nat) (text : Text) : stripFrom n text = strip (text.drop n) := by
  induction n generalizing text with
  | zero => rfl
  | succ n ih =>
    cases text with
    | nil => rfl
    | cons c rest => exact ih rest

theorem strip_plain {c : Char} (h : c ≠ escape) (rest : Text) :
    strip (c :: rest) = c :: strip rest := by
  simp [strip, stripFrom, h]

theorem strip_sequence {rest : Text} {n : Nat} (h : sequenceLength rest = some n) :
    strip (escape :: rest) = strip (rest.drop n) := by
  rw [← stripFrom_skip]
  simp [strip, stripFrom, h]

theorem strip_broken {rest : Text} (h : sequenceLength rest = none) :
    strip (escape :: rest) = escape :: strip rest := by
  simp [strip, stripFrom, h]

theorem dropWhile_append_stop {p : Char → Bool} {text rest : Text} {c : Char}
    (h : text.dropWhile p = c :: rest) (more : Text) :
    (text ++ more).dropWhile p = c :: (rest ++ more) := by
  simp [List.dropWhile_append, h]

theorem takeWhile_append_stop {p : Char → Bool} {text rest : Text} {c : Char}
    (h : text.dropWhile p = c :: rest) (more : Text) :
    (text ++ more).takeWhile p = text.takeWhile p := by
  induction text with
  | nil => simp at h
  | cons d text ih =>
    cases hd : p d with
    | true =>
      simp only [List.dropWhile_cons, hd, if_true] at h
      simp [hd, ih h]
    | false => simp [hd]

theorem sequenceLength_eq {rest tail after : Text} {c f : Char}
    (ht : rest.dropWhile isParameter = c :: tail)
    (ha : (c :: tail).dropWhile isIntermediate = f :: after) (more : Text) :
    sequenceLength ('[' :: (rest ++ more)) =
      if isFinal f then
        some (2 + (rest.takeWhile isParameter).length +
          ((c :: tail).takeWhile isIntermediate).length)
      else none := by
  have hparam := dropWhile_append_stop ht more
  have hinter := dropWhile_append_stop ha more
  rw [List.cons_append] at hinter
  simp only [sequenceLength, hparam, hinter, takeWhile_append_stop ht]
  rw [← List.cons_append, takeWhile_append_stop ha]

/-- What follows an escape character is unfinished, or it is decided whatever
is printed next. -/
theorem sequence_cases (rest : Text) :
    Unfinished (escape :: rest) ∨
      (∃ n, 0 < n ∧ n ≤ rest.length ∧ ∀ more, sequenceLength (rest ++ more) = some n) ∨
      ∀ more, sequenceLength (rest ++ more) = none := by
  cases rest with
  | nil => exact .inl (.inr (.inl rfl))
  | cons c rest =>
    by_cases hc : c = '['
    · subst hc
      have hrest := List.takeWhile_append_dropWhile (p := isParameter) (l := rest)
      have hps : ∀ c ∈ rest.takeWhile isParameter, isParameter c = true :=
        List.all_eq_true.mp List.all_takeWhile
      cases ht : rest.dropWhile isParameter with
      | nil =>
        rw [ht, List.append_nil] at hrest
        exact .inl (.inr (.inr ⟨rest, fun c hc => .inl (hps c (by rwa [hrest])), rfl⟩))
      | cons t tail =>
        have htail := List.takeWhile_append_dropWhile (p := isIntermediate) (l := t :: tail)
        have his : ∀ c ∈ (t :: tail).takeWhile isIntermediate, isIntermediate c = true :=
          List.all_eq_true.mp List.all_takeWhile
        cases ha : (t :: tail).dropWhile isIntermediate with
        | nil =>
          rw [ha, List.append_nil] at htail
          refine .inl (.inr (.inr ⟨rest, fun c hc => ?_, rfl⟩))
          rw [← hrest, ht, List.mem_append] at hc
          exact hc.imp (hps c) fun hc => his c (by rwa [htail])
        | cons f after =>
          right
          have hlen : (rest.takeWhile isParameter).length +
              ((t :: tail).takeWhile isIntermediate).length < rest.length := by
            have h₁ := congrArg List.length hrest
            have h₂ := congrArg List.length htail
            rw [ht] at h₁
            rw [ha] at h₂
            simp only [List.length_append, List.length_cons] at h₁ h₂
            omega
          by_cases hf : isFinal f = true
          · refine .inl ⟨_, ?_, ?_, fun more => by
              rw [List.cons_append, sequenceLength_eq ht ha, if_pos hf]⟩
            · omega
            · simp only [List.length_cons]
              omega
          · exact .inr fun more => by rw [List.cons_append, sequenceLength_eq ht ha, if_neg hf]
    · refine .inr (.inr fun more => ?_)
      rw [List.cons_append]
      unfold sequenceLength
      split
      · rename_i heq
        exact absurd (List.cons.inj heq).1 hc
      · rfl

/-- What is printed so far settles a text and leaves a start of a sequence. -/
theorem strip_settles (printed : Text) :
    ∃ out u, Unfinished u ∧ ∀ more, strip (printed ++ more) = out ++ strip (u ++ more) := by
  generalize hn : printed.length = n
  induction n using Nat.strongRecOn generalizing printed with
  | ind n ih =>
    cases printed with
    | nil => exact ⟨[], [], .inl rfl, fun more => rfl⟩
    | cons c rest =>
      by_cases hc : c = escape
      · subst hc
        rcases sequence_cases rest with hu | ⟨k, hpos, hk, hlen⟩ | hnone
        · exact ⟨[], escape :: rest, hu, fun more => rfl⟩
        · obtain ⟨out, u, hu, hout⟩ := ih (rest.drop k).length
            (by simp only [List.length_drop, List.length_cons] at hn ⊢; omega) _ rfl
          refine ⟨out, u, hu, fun more => ?_⟩
          rw [List.cons_append, strip_sequence (hlen more), List.drop_append_of_le_length hk, hout]
        · obtain ⟨out, u, hu, hout⟩ := ih rest.length
            (by simp only [List.length_cons] at hn; omega) _ rfl
          refine ⟨escape :: out, u, hu, fun more => ?_⟩
          rw [List.cons_append, strip_broken (hnone more), hout, List.cons_append]
      · obtain ⟨out, u, hu, hout⟩ := ih rest.length
          (by simp only [List.length_cons] at hn; omega) _ rfl
        refine ⟨c :: out, u, hu, fun more => ?_⟩
        rw [List.cons_append, strip_plain hc, hout, List.cons_append]

theorem sequenceLength_final {text : Text} {n : Nat} (h : sequenceLength text = some n) :
    2 ≤ n ∧ ∃ f, text[n - 1]? = some f ∧ isFinal f = true := by
  unfold sequenceLength at h
  split at h
  · rename_i rest
    simp only at h
    split at h
    · rename_i f after ha
      split at h
      · rename_i hf
        cases h
        refine ⟨by omega, f, ?_, hf⟩
        have hrest := List.takeWhile_append_dropWhile (p := isParameter) (l := rest)
        have htail := List.takeWhile_append_dropWhile (p := isIntermediate)
          (l := rest.dropWhile isParameter)
        rw [ha] at htail
        rw [← htail] at hrest
        generalize rest.takeWhile isParameter = ps at hrest ⊢
        generalize (rest.dropWhile isParameter).takeWhile isIntermediate = is at hrest ⊢
        rw [show 2 + ps.length + is.length - 1 = ps.length + is.length + 1 by omega,
          List.getElem?_cons_succ, ← hrest, List.getElem?_append_right (by omega)]
        simp
      · cases h
    · cases h
  · cases h

theorem not_final {c : Char} (h : isParameter c = true ∨ isIntermediate c = true) :
    isFinal c = false ∧ c ≠ escape := by
  have hrange : 0x20 ≤ c.toNat ∧ c.toNat ≤ 0x3f := by
    simp only [isParameter, isIntermediate, Bool.and_eq_true, decide_eq_true_eq] at h
    omega
  constructor
  · simp only [isFinal, Bool.and_eq_false_iff, decide_eq_false_iff_not]
    omega
  · rintro rfl
    simp [escape] at hrange

theorem strip_run {z : Text} (hz : ∀ c ∈ z, c ≠ escape) (rest : Text) :
    strip (z ++ rest) = z ++ strip rest := by
  induction z with
  | nil => rfl
  | cons c z ih =>
    simp only [List.forall_mem_cons] at hz
    rw [List.cons_append, strip_plain hz.1, ih hz.2, List.cons_append]

theorem strip_short {last : Text} (h : last.length ≤ 1) : strip last = last := by
  match last, h with
  | [], _ => rfl
  | [c], _ =>
    by_cases hc : c = escape
    · subst hc
      rfl
    · rw [strip_plain hc]
      rfl

/-- After an escape character, a text without a final character but at its end
is kept, or is all of a sequence. -/
theorem strip_escape {v z last : Text} (hv : v = z ++ last ∨ v = '[' :: (z ++ last))
    (hz : ∀ c ∈ z, isFinal c = false ∧ c ≠ escape) (hlast : last.length ≤ 1) :
    strip (escape :: v) = escape :: v ∨ strip (escape :: v) = [] := by
  cases h : sequenceLength v with
  | none =>
    left
    rw [strip_broken h]
    have hplain := strip_run (fun c hc => (hz c hc).2) last
    rw [strip_short hlast] at hplain
    rcases hv with rfl | rfl
    · rw [hplain]
    · rw [strip_plain (by decide), hplain]
  | some n =>
    right
    obtain ⟨hn, f, hf, hfinal⟩ := sequenceLength_final h
    have hend : v.length ≤ n := by
      apply Nat.le_of_not_lt
      intro hlt
      have hmem : ∀ i, i < z.length → (z ++ last)[i]? ≠ some f := by
        intro i hi heq
        rw [List.getElem?_append_left hi] at heq
        rw [(hz f (List.mem_of_getElem? heq)).1] at hfinal
        cases hfinal
      rcases hv with rfl | rfl
      · rw [List.length_append] at hlt
        exact hmem (n - 1) (by omega) hf
      · rw [List.length_cons, List.length_append] at hlt
        rw [show n - 1 = n - 2 + 1 by omega, List.getElem?_cons_succ] at hf
        exact hmem (n - 2) (by omega) hf
    rw [strip_sequence h, List.drop_eq_nil_of_le hend]
    rfl

/-- A start of a sequence followed by at most one character is kept as it is,
or is all of a sequence. -/
theorem strip_unfinished {u front last : Text} (hu : Unfinished u)
    (hfront : ∀ c ∈ front, c = Utf8.replacement) (hlast : last.length ≤ 1) :
    strip (u ++ (front ++ last)) = u ++ (front ++ last) ∨ strip (u ++ (front ++ last)) = [] := by
  have hf : ∀ c ∈ front, isFinal c = false ∧ c ≠ escape := by
    intro c hc
    rw [hfront c hc]
    decide
  rcases hu with rfl | rfl | ⟨z, hz, rfl⟩
  · left
    rw [List.nil_append, strip_run (fun c hc => (hf c hc).2), strip_short hlast]
  · exact strip_escape (z := front) (.inl rfl) hf hlast
  · have hall : ∀ c ∈ z ++ front, isFinal c = false ∧ c ≠ escape := by
      intro c hc
      rcases List.mem_append.mp hc with hc | hc
      · exact not_final (hz c hc)
      · exact hf c hc
    have := strip_escape (v := '[' :: (z ++ front ++ last)) (.inr rfl) hall hlast
    simpa using this

/-! ## Markers -/

/-- What the failure markers have in common: a first character that no
unfinished sequence has after its first, a second one, and none that is lost. -/
def isMarker : Text → Bool
  | h :: c :: rest =>
    isFinal h && h ≠ '[' &&
      (h :: c :: rest).all fun c => c ≠ escape && c ≠ Utf8.replacement && c ≠ '\r'
  | _ => false

theorem failures_isMarker : ∀ marker ∈ failures, isMarker marker = true := by
  decide

theorem infix_of_infix_append_cons {marker front back : Text} {c : Char}
    (h : marker <:+: front ++ c :: back) (hc : c ∉ marker) :
    marker <:+: front ∨ marker <:+: back := by
  have hnil : ∀ m : Text, c ∉ m → m <+: c :: back → m = [] := by
    intro m hm hpre
    rcases List.prefix_cons_iff.mp hpre with heq | ⟨rest, rfl, _⟩
    · exact heq
    · simp at hm
  rcases List.infix_append_iff_ne_nil.mp h with hin | hin | ⟨m₁, m₂, _, hne, rfl, _, hpre⟩
  · exact .inl hin
  · rcases List.infix_cons_iff.mp hin with hpre | hin
    · rw [hnil marker hc hpre]
      exact .inl List.nil_infix
    · exact .inr hin
  · exact absurd (hnil m₂ (fun hm => hc (List.mem_append_right _ hm)) hpre) hne

theorem head_of_infix {h c : Char} {marker front last : Text}
    (hin : h :: c :: marker <:+: front ++ last) (hlast : last.length ≤ 1) : h ∈ front := by
  rcases List.infix_append_iff_ne_nil.mp hin with hin | hin | ⟨m₁, m₂, hne, _, heq, hsuf, _⟩
  · exact hin.subset List.mem_cons_self
  · have := hin.length_le
    simp only [List.length_cons] at this
    omega
  · obtain ⟨d, m₁, rfl⟩ := List.exists_cons_of_ne_nil hne
    rw [(List.cons.inj heq).1]
    exact hsuf.subset List.mem_cons_self

/-- A marker that stands in the text only since the last byte ends there. -/
theorem marker_ends {marker out u front last : Text} (hm : isMarker marker = true)
    (hu : Unfinished u) (hfront : ∀ c ∈ front, c = Utf8.replacement) (hlast : last.length ≤ 1)
    (h : marker <:+: dropReturns (out ++ strip (u ++ (front ++ last)))) :
    marker <:+: dropReturns out ∨
      (marker <:+ dropReturns (out ++ strip (u ++ (front ++ last))) ∧ last ≠ []) := by
  obtain ⟨a, b, rest, rfl⟩ : ∃ a b rest, marker = a :: b :: rest := by
    match marker, hm with
    | a :: b :: rest, _ => exact ⟨a, b, rest, rfl⟩
  simp only [isMarker, Bool.and_eq_true, decide_eq_true_eq, List.all_eq_true] at hm
  obtain ⟨⟨hfinal, hbracket⟩, hall⟩ := hm
  have hescape : escape ∉ a :: b :: rest := fun hc => (hall _ hc).1.1 rfl
  have hrepl : Utf8.replacement ∉ a :: b :: rest := fun hc => (hall _ hc).1.2 rfl
  have hplace : ∀ z : Text, (∀ c ∈ z, isFinal c = false ∨ c = '[') →
      ¬ a :: b :: rest <:+: dropReturns (z ++ last) := by
    intro z hz hin
    rw [dropReturns, List.filter_append] at hin
    have hmem := head_of_infix hin (Nat.le_trans (List.length_filter_le _ _) hlast)
    rcases hz a (List.mem_filter.mp hmem).1 with hnot | heq
    · rw [hfinal] at hnot
      cases hnot
    · exact hbracket heq
  have hfront' : ∀ c ∈ front, isFinal c = false ∨ c = '[' := by
    intro c hc
    rw [hfront c hc]
    exact .inl (by decide)
  -- a character no marker has cuts the marker off from what comes after it
  have hcut : ∀ (c : Char) (z : Text), c ∉ a :: b :: rest → c ≠ '\r' →
      (∀ d ∈ z, isFinal d = false ∨ d = '[') →
      a :: b :: rest <:+: dropReturns (out ++ c :: (z ++ last)) → a :: b :: rest <:+: dropReturns out := by
    intro c z hc hcr hz hin
    rw [dropReturns, List.filter_append, List.filter_cons_of_pos (by simpa using hcr)] at hin
    exact (infix_of_infix_append_cons hin hc).resolve_right (hplace z hz)
  rcases strip_unfinished hu hfront hlast with hstrip | hstrip
  · rw [hstrip] at h ⊢
    rcases hu with rfl | rfl | ⟨z, hz, rfl⟩
    · cases front with
      | nil =>
        match last, hlast with
        | [], _ => exact .inl (by simpa using h)
        | [c], _ =>
          by_cases hc : c = '\r'
          · left
            simpa [dropReturns, hc] using h
          · have heq : dropReturns (out ++ ([] ++ ([] ++ [c]))) = dropReturns out ++ [c] := by
              simp [dropReturns, hc]
            rw [heq] at h ⊢
            rcases List.infix_concat_iff.mp h with hsuf | hin
            · exact .inr ⟨hsuf, by simp⟩
            · exact .inl hin
      | cons f fs =>
        simp only [List.forall_mem_cons] at hfront hfront'
        obtain ⟨rfl, _⟩ := hfront
        exact .inl (hcut _ fs hrepl (by decide) hfront'.2 h)
    · exact .inl (hcut _ front hescape (by decide) hfront' h)
    · left
      refine hcut _ ('[' :: (z ++ front)) hescape (by decide) ?_ (by simpa using h)
      intro d hd
      rcases List.mem_cons.mp hd with rfl | hd
      · exact .inr rfl
      · rcases List.mem_append.mp hd with hd | hd
        · exact .inl (not_final (hz d hd)).1
        · exact hfront' d hd
  · left
    simpa [hstrip] using h

/-! ## What has been printed so far -/

/-- What is printed next is read on from what the text settles and leaves. -/
theorem textOf_append (front : Bytes) :
    ∃ out u, Unfinished u ∧ ∀ back, textOf (front ++ back) =
      dropReturns (out ++ strip (u ++ Utf8.decodeFrom (Utf8.after none front) back)) := by
  obtain ⟨out, u, hu, hout⟩ := strip_settles (Utf8.settled none front)
  refine ⟨out, u, hu, fun back => ?_⟩
  rw [textOf, clean, Utf8.decode, Utf8.decodeFrom_append, hout]

/-- A marker that stands in the text stays in it. -/
theorem contains_append {marker : Text} (hm : isMarker marker = true) {front : Bytes}
    (h : marker <:+: textOf front) (back : Bytes) : marker <:+: textOf (front ++ back) := by
  obtain ⟨out, u, hu, hout⟩ := textOf_append front
  have hnow := hout []
  rw [List.append_nil, Utf8.decodeFrom] at hnow
  rw [hnow, ← List.append_nil (Utf8.flush _)] at h
  rcases marker_ends hm hu (Utf8.flush_eq _) (by simp) h with hin | ⟨_, hne⟩
  · rw [hout, dropReturns, List.filter_append]
    exact List.infix_append_of_infix_left hin
  · exact absurd rfl hne

/-- A marker that comes to stand in the text does so at its end. -/
theorem contains_snoc {marker : Text} (hm : isMarker marker = true) {front : Bytes} {b : UInt8}
    (h : marker <:+: textOf (front ++ [b])) :
    marker <:+: textOf front ∨ marker <:+ textOf (front ++ [b]) := by
  obtain ⟨out, u, hu, hout⟩ := textOf_append front
  obtain ⟨rest, last, hrest, hlast, heq⟩ := Utf8.decodeFrom_single (Utf8.after none front) b
  rw [hout, heq] at h ⊢
  rcases marker_ends hm hu hrest hlast h with hin | ⟨hsuf, _⟩
  · left
    have hnow := hout []
    rw [List.append_nil] at hnow
    rw [hnow, dropReturns, List.filter_append]
    exact List.infix_append_of_infix_left hin
  · exact .inr hsuf

/-- Bytes that complete a marker: the text ends in it after one of them. -/
def Completes (front back : Bytes) : Prop :=
  ∃ n, n < back.length ∧ ∃ marker ∈ failures, marker <:+ textOf (front ++ back.take (n + 1))

/-- If no marker stands in a text, one stands in what it is continued to
exactly when a byte of the continuation completes it. -/
theorem failureIn_append_iff {front : Bytes} (h : failureIn (textOf front) = false)
    (back : Bytes) : failureIn (textOf (front ++ back)) = true ↔ Completes front back := by
  constructor
  · intro hin
    induction back generalizing front with
    | nil => simp [h] at hin
    | cons b back ih =>
      cases hb : failureIn (textOf (front ++ [b])) with
      | true =>
        obtain ⟨marker, hmem, hmark⟩ := (failureIn_iff _).mp hb
        refine ⟨0, by simp, marker, hmem, ?_⟩
        rcases contains_snoc (failures_isMarker marker hmem) hmark with hold | hsuf
        · rw [(failureIn_iff _).mpr ⟨marker, hmem, hold⟩] at h
          cases h
        · exact hsuf
      | false =>
        obtain ⟨n, hn, marker, hmem, hsuf⟩ := ih hb (by simpa using hin)
        exact ⟨n + 1, by simpa using hn, marker, hmem, by simpa using hsuf⟩
  · rintro ⟨n, hn, marker, hmem, hsuf⟩
    rw [failureIn_iff]
    refine ⟨marker, hmem, ?_⟩
    have hkeep := contains_append (failures_isMarker marker hmem) hsuf.isInfix (back.drop (n + 1))
    rwa [List.append_assoc, List.take_append_drop] at hkeep

end LinuxBuild.Console
