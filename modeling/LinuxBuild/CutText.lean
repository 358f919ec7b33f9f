import LinuxBuild.Console
import LinuxBuild.StrictUtf8

/-!
# Text decoded in pieces

Bytes that are cut before they are decoded give another text where a cut falls
within a character. A newline always ends a character, and no cut makes an
ASCII text of bytes that are not ASCII.
-/

namespace LinuxBuild

namespace Bytes

theorem splitOn_not_mem {α : Type} [DecidableEq α] {x : α} {b piece : List α}
    (h : piece ∈ b.splitOn x) : x ∉ piece := by
  intro hx
  rw [List.splitOn_eq_splitOnP] at h
  have := (mem_splitOnP h hx).1
  simp at this

theorem splitOn_concat {α : Type} [DecidableEq α] (x : α) (b : List α) :
    ∃ pieces last, b.splitOn x = pieces ++ [last] :=
  ⟨_, _, (List.dropLast_concat_getLast (List.splitOn_ne_nil x b)).symm⟩

/-- What is appended goes on with the last piece. -/
theorem splitOn_append {α : Type} [DecidableEq α] {x : α} {b last : List α} {pieces : List (List α)}
    (h : b.splitOn x = pieces ++ [last]) (more : List α) :
    (b ++ more).splitOn x = pieces ++ (last ++ more).splitOn x := by
  induction b using split_induction x generalizing pieces with
  | last b hb =>
    rw [List.splitOn_eq_singleton hb, List.singleton_eq_append_iff] at h
    obtain ⟨rfl, h⟩ | ⟨_, h⟩ := h
    · obtain rfl := List.singleton_inj.mp h
      rfl
    · cases h
  | piece l rest hl ih =>
    rw [List.splitOn_append_cons_self_of_not_mem hl] at h
    rw [List.append_assoc, List.cons_append, List.splitOn_append_cons_self_of_not_mem hl]
    cases pieces with
    | nil => exact absurd (List.cons.inj h).2 (List.splitOn_ne_nil _ _)
    | cons piece pieces =>
      obtain ⟨rfl, hrest⟩ := List.cons.inj h
      rw [ih hrest, List.cons_append]

end Bytes

namespace Utf8

/-- What an ASCII text shows. -/
def asciiText (bytes : Bytes) : Text := bytes.map fun b => Char.ofNat b.toNat

/-- A character that is not finished will not be an ASCII one. -/
def SoundState (s : Option Pending) : Prop := ∀ p, s = some p → p.Sound

theorem soundState_none : SoundState none := by
  intro p hp
  cases hp

theorem soundState_some {p : Pending} (h : p.Sound) : SoundState (some p) := by
  intro q hq
  rw [← Option.some.inj hq]
  exact h

theorem replacement_beyond : 0x80 ≤ replacement.toNat := by
  decide

/-- What a byte beyond ASCII does: it settles characters beyond ASCII or
leaves one unfinished. -/
structure Beyond (r : Text × Option Pending) : Prop where
  sound : SoundState r.2
  chars : ∀ c ∈ r.1, 0x80 ≤ c.toNat
  shown : r.1 ≠ [] ∨ r.2.isSome = true

theorem start_beyond {b : Nat} (h : ¬ b < 0x80) : Beyond (start b) := by
  unfold start
  cases hlead : lead b with
  | char c => exact absurd (lead_char hlead).1 h
  | pending p =>
    exact ⟨soundState_some (lead_sound hlead), by simp, .inr rfl⟩
  | invalid =>
    refine ⟨soundState_none, ?_, .inl (by simp)⟩
    intro c hc
    rw [List.mem_singleton.mp hc]
    exact replacement_beyond

theorem feed_beyond {s : Option Pending} {b : UInt8} (hs : SoundState s) (h : ¬ b.toNat < 0x80) :
    Beyond (feed s b) := by
  cases s with
  | none => exact start_beyond h
  | some p =>
    have hp := hs p rfl
    simp only [feed]
    split
    · rename_i hin
      cases hmore : p.more with
      | zero =>
        refine ⟨soundState_none, ?_, .inl (by simp)⟩
        intro c hc
        rw [List.mem_singleton.mp hc]
        exact hp.char hmore hin.1 hin.2
      | succ more =>
        exact ⟨soundState_some (hp.next hmore hin.1 hin.2), by simp, .inr rfl⟩
    · have hstart := start_beyond h
      refine ⟨hstart.sound, ?_, .inl (by simp)⟩
      intro c hc
      rcases List.mem_cons.mp hc with rfl | hc
      · exact replacement_beyond
      · exact hstart.chars c hc

/-- An ASCII byte ends what is unfinished. -/
theorem feed_ascii {s : Option Pending} {b : UInt8} (hs : SoundState s) (h : b.toNat < 0x80) :
    feed s b = (flush s ++ [Char.ofNat b.toNat], none) := by
  have hstart : start b.toNat = ([Char.ofNat b.toNat], none) := by simp [start, lead, h]
  cases s with
  | none => exact hstart
  | some p =>
    have hlow := (hs p rfl).continuation
    have hout : ¬ (p.low ≤ b.toNat ∧ b.toNat ≤ p.high) := by omega
    simp [feed, if_neg hout, hstart, flush]

theorem feed_sound {s : Option Pending} (b : UInt8) (hs : SoundState s) :
    SoundState (feed s b).2 := by
  by_cases h : b.toNat < 0x80
  · rw [feed_ascii hs h]
    exact soundState_none
  · exact (feed_beyond hs h).sound

theorem after_sound {s : Option Pending} (bytes : Bytes) (hs : SoundState s) :
    SoundState (after s bytes) := by
  induction bytes generalizing s with
  | nil => exact hs
  | cons b bytes ih => exact ih (feed_sound b hs)

theorem decodeFrom_ascii {s : Option Pending} {b : UInt8} (rest : Bytes) (hs : SoundState s)
    (h : b.toNat < 0x80) :
    decodeFrom s (b :: rest) = flush s ++ Char.ofNat b.toNat :: decode rest := by
  rw [decodeFrom, feed_ascii hs h, List.append_assoc]
  rfl

/-- A newline cuts a text without a trace. -/
theorem decode_newline (front rest : Bytes) :
    decode (front ++ lf :: rest) = decode front ++ '\n' :: decode rest := by
  have hfront := decodeFrom_append none front []
  rw [List.append_nil] at hfront
  rw [decode, decode, hfront, decodeFrom_append,
    decodeFrom_ascii rest (after_sound front soundState_none) (by decide), List.append_assoc]
  rfl

/-- An ASCII character comes from its byte. -/
theorem mem_decodeFrom {s : Option Pending} {bytes : Bytes} {c : Char} (hs : SoundState s)
    (hc : c ∈ decodeFrom s bytes) (h : c.toNat < 0x80) : ∃ b ∈ bytes, b.toNat = c.toNat := by
  have hflush : ∀ s, c ∉ flush s := by
    intro s hc
    have := replacement_beyond
    rw [flush_eq s c hc] at h
    omega
  induction bytes generalizing s with
  | nil => exact absurd hc (hflush s)
  | cons b bytes ih =>
    by_cases hb : b.toNat < 0x80
    · rw [decodeFrom_ascii bytes hs hb] at hc
      rcases List.mem_append.mp hc with hc | hc
      · exact absurd hc (hflush s)
      · rcases List.mem_cons.mp hc with rfl | hc
        · exact ⟨b, List.mem_cons_self, (toNat_ofNat (by omega)).symm⟩
        · obtain ⟨b', hb', heq⟩ := ih soundState_none hc
          exact ⟨b', List.mem_cons_of_mem _ hb', heq⟩
    · have hbeyond := feed_beyond hs hb
      rcases List.mem_append.mp hc with hc | hc
      · have := hbeyond.chars c hc
        omega
      · obtain ⟨b', hb', heq⟩ := ih hbeyond.sound hc
        exact ⟨b', List.mem_cons_of_mem _ hb', heq⟩

theorem newline_not_mem {bytes : Bytes} (h : lf ∉ bytes) : '\n' ∉ decode bytes := by
  intro hc
  obtain ⟨b, hb, heq⟩ := mem_decodeFrom soundState_none hc (by decide)
  rw [show b = lf from UInt8.toNat_inj.mp heq] at hb
  exact h hb

theorem decode_ascii {bytes : Bytes} (h : ∀ b ∈ bytes, b.toNat < 0x80) :
    decode bytes = asciiText bytes := by
  induction bytes with
  | nil => rfl
  | cons b bytes ih =>
    simp only [List.forall_mem_cons] at h
    rw [decode, decodeFrom_ascii bytes soundState_none h.1, ih h.2]
    rfl

/-- A byte beyond ASCII leaves a character beyond ASCII in the text. -/
theorem decodeFrom_beyond {s : Option Pending} {bytes : Bytes} (hs : SoundState s)
    (h : s.isSome = true ∨ ∃ b ∈ bytes, ¬ b.toNat < 0x80) :
    ∃ c ∈ decodeFrom s bytes, 0x80 ≤ c.toNat := by
  induction bytes generalizing s with
  | nil =>
    have hsome := h.resolve_right (by simp)
    exact ⟨replacement, by simp [decodeFrom, flush, hsome], replacement_beyond⟩
  | cons b bytes ih =>
    by_cases hb : b.toNat < 0x80
    · rw [decodeFrom_ascii bytes hs hb]
      rcases h with hsome | ⟨b', hmem, hb'⟩
      · exact ⟨replacement, by simp [flush, hsome], replacement_beyond⟩
      · rcases List.mem_cons.mp hmem with rfl | hmem
        · exact absurd hb hb'
        · obtain ⟨c, hc, hge⟩ := ih soundState_none (.inr ⟨b', hmem, hb'⟩)
          exact ⟨c, List.mem_append_right _ (List.mem_cons_of_mem _ hc), hge⟩
    · have hbeyond := feed_beyond hs hb
      rcases hbeyond.shown with hne | hsome
      · obtain ⟨c, hc⟩ := List.exists_mem_of_ne_nil _ hne
        exact ⟨c, List.mem_append_left _ hc, hbeyond.chars c hc⟩
      · obtain ⟨c, hc, hge⟩ := ih hbeyond.sound (.inl hsome)
        exact ⟨c, List.mem_append_right _ hc, hge⟩

/-! ## Bytes cut anywhere -/

/-- A text that may stand for the bytes, wherever they were cut: their own text
if they are ASCII, and one that is not ASCII if they are not. -/
inductive Shows (bytes : Bytes) (t : Text) : Prop
  | ascii (all : ∀ b ∈ bytes, b.toNat < 0x80) (text : t = asciiText bytes)
  | beyond (byte : ∃ b ∈ bytes, ¬ b.toNat < 0x80) (char : ∃ c ∈ t, 0x80 ≤ c.toNat)

theorem decode_shows (bytes : Bytes) : Shows bytes (decode bytes) := by
  by_cases h : ∀ b ∈ bytes, b.toNat < 0x80
  · exact .ascii h (decode_ascii h)
  · have hbyte : ∃ b ∈ bytes, ¬ b.toNat < 0x80 := by simpa using h
    exact .beyond hbyte (decodeFrom_beyond soundState_none (.inr hbyte))

theorem shows_nil : Shows [] [] := .ascii (by simp) rfl

theorem Shows.append {front back : Bytes} {t u : Text} (ht : Shows front t) (hu : Shows back u) :
    Shows (front ++ back) (t ++ u) := by
  cases ht with
  | beyond byte char =>
    obtain ⟨b, hb, hge⟩ := byte
    obtain ⟨c, hc, hge'⟩ := char
    exact .beyond ⟨b, List.mem_append_left _ hb, hge⟩ ⟨c, List.mem_append_left _ hc, hge'⟩
  | ascii all text =>
    cases hu with
    | beyond byte char =>
      obtain ⟨b, hb, hge⟩ := byte
      obtain ⟨c, hc, hge'⟩ := char
      exact .beyond ⟨b, List.mem_append_right _ hb, hge⟩ ⟨c, List.mem_append_right _ hc, hge'⟩
    | ascii all' text' =>
      refine .ascii ?_ (by rw [text, text', asciiText, asciiText, asciiText, List.map_append])
      intro b hb
      exact (List.mem_append.mp hb).elim (all b) (all' b)

/-- Read on from an unfinished line, a chunk shows the lines of its bytes. -/
theorem Shows.splitOn {line : Bytes} {t : Text} (h : Shows line t) (hline : lf ∉ line)
    (ht : '\n' ∉ t) (data : Bytes) :
    List.Forall₂ Shows ((line ++ data).splitOn lf) ((t ++ decode data).splitOn '\n') := by
  induction data using Bytes.split_induction lf generalizing line t with
  | last data hdata =>
    have hbytes : lf ∉ line ++ data := by simp [hline, hdata]
    have hchars : '\n' ∉ t ++ decode data := by simp [ht, newline_not_mem hdata]
    rw [List.splitOn_eq_singleton hbytes, List.splitOn_eq_singleton hchars]
    exact .cons (h.append (decode_shows data)) .nil
  | piece l rest hl ih =>
    have hbytes : lf ∉ line ++ l := by simp [hline, hl]
    have hchars : '\n' ∉ t ++ decode l := by simp [ht, newline_not_mem hl]
    rw [decode_newline, ← List.append_assoc, ← List.append_assoc,
      List.splitOn_append_cons_self_of_not_mem hbytes,
      List.splitOn_append_cons_self_of_not_mem hchars]
    exact .cons (h.append (decode_shows l)) (ih shows_nil (by simp) (by simp))

end Utf8

namespace Console

/-! ## What `clean` keeps -/

theorem class_ascii {c : Char}
    (h : isParameter c = true ∨ isIntermediate c = true ∨ isFinal c = true) : c.toNat < 0x80 := by
  simp only [isParameter, isIntermediate, isFinal, Bool.and_eq_true, decide_eq_true_eq] at h
  omega

/-- What an escape character is taken away with. -/
theorem sequenceLength_ascii {text : Text} {n : Nat} (h : sequenceLength text = some n) :
    ∃ taken rest, text = taken ++ rest ∧ taken.length = n ∧ ∀ c ∈ taken, c.toNat < 0x80 := by
  unfold sequenceLength at h
  split at h
  · rename_i text
    simp only at h
    split at h
    · rename_i f rest hf
      split at h
      · rename_i hfinal
        cases h
        have htext := List.takeWhile_append_dropWhile (p := isParameter) (l := text)
        have htail := List.takeWhile_append_dropWhile (p := isIntermediate)
          (l := text.dropWhile isParameter)
        have hps : ∀ c ∈ text.takeWhile isParameter, isParameter c = true :=
          List.all_eq_true.mp List.all_takeWhile
        have his : ∀ c ∈ (text.dropWhile isParameter).takeWhile isIntermediate,
            isIntermediate c = true := List.all_eq_true.mp List.all_takeWhile
        rw [hf] at htail
        rw [← htail] at htext
        generalize text.takeWhile isParameter = ps at htext hps ⊢
        generalize (text.dropWhile isParameter).takeWhile isIntermediate = is at htext his ⊢
        refine ⟨'[' :: (ps ++ (is ++ [f])), rest, by simp [← htext], by simp; omega, ?_⟩
        intro c hc
        rcases List.mem_cons.mp hc with rfl | hc
        · decide
        rcases List.mem_append.mp hc with hc | hc
        · exact class_ascii (.inl (hps c hc))
        rcases List.mem_append.mp hc with hc | hc
        · exact class_ascii (.inr (.inl (his c hc)))
        · rw [List.mem_singleton.mp hc]
          exact class_ascii (.inr (.inr hfinal))
      · cases h
    · cases h
  · cases h

theorem mem_strip {t : Text} {c : Char} (hc : c ∈ t) (h : 0x80 ≤ c.toNat) : c ∈ strip t := by
  generalize hn : t.length = n
  induction n using Nat.strongRecOn generalizing t with
  | ind n ih =>
    cases t with
    | nil => cases hc
    | cons d rest =>
      have hlen : rest.length < n := by
        rw [← hn]
        exact Nat.lt_succ_self _
      by_cases hd : d = escape
      · subst hd
        have hrest : c ∈ rest := by
          rcases List.mem_cons.mp hc with rfl | hc
          · exact absurd h (by decide)
          · exact hc
        cases hseq : sequenceLength rest with
        | none =>
          rw [strip_broken hseq]
          exact List.mem_cons_of_mem _ (ih _ hlen hrest rfl)
        | some k =>
          rw [strip_sequence hseq]
          obtain ⟨taken, kept, rfl, rfl, hascii⟩ := sequenceLength_ascii hseq
          rw [List.drop_left]
          have hkept : c ∈ kept := by
            rcases List.mem_append.mp hrest with hc | hc
            · have := hascii c hc
              omega
            · exact hc
          rw [List.length_append] at hlen
          exact ih kept.length (by omega) hkept rfl
      · rw [strip_plain hd]
        rcases List.mem_cons.mp hc with rfl | hc
        · exact List.mem_cons_self
        · exact List.mem_cons_of_mem _ (ih _ hlen hc rfl)

/-- Neither an escape sequence nor a return has a character beyond ASCII. -/
theorem mem_clean {t : Text} {c : Char} (hc : c ∈ t) (h : 0x80 ≤ c.toNat) : c ∈ clean t := by
  apply List.mem_filter.mpr
  refine ⟨mem_strip hc h, ?_⟩
  have hne : c ≠ '\r' := by
    rintro rfl
    exact absurd h (by decide)
  simpa using hne

/-- Whether a line reads as an ASCII text does not depend on the cuts. -/
theorem clean_eq_iff {bytes : Bytes} {t u line : Text} (ht : Utf8.Shows bytes t)
    (hu : Utf8.Shows bytes u) (hline : ∀ c ∈ line, c.toNat < 0x80) :
    clean t = line ↔ clean u = line := by
  have hnot : ∀ v : Text, (∃ c ∈ v, 0x80 ≤ c.toNat) → clean v ≠ line := by
    rintro v ⟨c, hc, hge⟩ rfl
    have := hline c (mem_clean hc hge)
    omega
  cases ht with
  | ascii all text =>
    cases hu with
    | ascii _ text' => rw [text, text']
    | beyond byte _ =>
      obtain ⟨b, hb, hge⟩ := byte
      exact absurd (all b hb) hge
  | beyond byte char =>
    cases hu with
    | ascii all _ =>
      obtain ⟨b, hb, hge⟩ := byte
      exact absurd (all b hb) hge
    | beyond _ char' => exact iff_of_false (hnot t char) (hnot u char')

end Console

end LinuxBuild
