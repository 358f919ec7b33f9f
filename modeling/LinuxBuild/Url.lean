import Mathlib.Data.List.TakeWhile
import LinuxBuild.Fragment
import LinuxBuild.Python

/-!
# URLs

`urlsplit` and `urlunsplit` of `urllib.parse`. What a URL is split into is read
back from the URL put together again (`splitParts_urlunsplit`).
-/

namespace LinuxBuild.Url

open Python (partition)

structure Parts where
  scheme : Text
  netloc : Text
  path : Text
  query : Text
  fragment : Text
  deriving DecidableEq, Repr

/-- The C0 controls and the blank. -/
def isControl (c : Char) : Bool := c.toNat ≤ 0x20

def isUnsafe (c : Char) : Bool := c = '\t' || c = '\r' || c = '\n'

/-- What is left of a URL before it is split. -/
def cleaned (url : Text) : Text := (url.dropWhile isControl).filter (!isUnsafe ·)

def isSchemeChar (c : Char) : Bool := c.isAlphanum || c = '+' || c = '-' || c = '.'

/-- A scheme and what comes after its colon. -/
def splitScheme (url : Text) : Text × Text :=
  let (scheme, rest) := partition ':' url
  if ':' ∈ url ∧ scheme.head?.any Char.isAlpha = true ∧ scheme.all isSchemeChar = true then
    (scheme.map Char.toLower, rest)
  else ([], url)

def endsNetloc (c : Char) : Bool := c = '/' || c = '?' || c = '#'

def splitNetloc : Text → Text × Text
  | '/' :: '/' :: rest => (rest.takeWhile (!endsNetloc ·), rest.dropWhile (!endsNetloc ·))
  | url => ([], url)

/-- The five parts, before any is checked. -/
def splitParts (url : Text) : Parts :=
  let (scheme, url) := splitScheme (cleaned url)
  let (netloc, url) := splitNetloc url
  let (url, fragment) := partition '#' url
  let (path, query) := partition '?' url
  ⟨scheme, netloc, path, query, fragment⟩

/-- The Unicode data and the address parser: NFKC, and the hosts that may stand
in brackets. -/
structure Library where
  nfkc : Text → Text
  bracketed : Text → Bool

/-- `_checknetloc`: no delimiter comes out of the normal form. -/
def netlocSafe (lib : Library) (netloc : Text) : Bool :=
  netloc.all (fun c => c.toNat < 0x80) ||
    let n := netloc.filter fun c => !("@:#?".toList.contains c)
    n == lib.nfkc n || "/?#@:".toList.all fun c => !(lib.nfkc n).contains c

def netlocOk (lib : Library) (netloc : Text) : Bool :=
  (netloc.contains '[' == netloc.contains ']') &&
    (!netloc.contains '[' || lib.bracketed (partition ']' (partition '[' netloc).2).1) &&
    netlocSafe lib netloc

structure ValueError where
  deriving DecidableEq, Repr

def urlsplit (lib : Library) (url : Text) : Except ValueError Parts :=
  let parts := splitParts url
  if netlocOk lib parts.netloc then .ok parts else .error {}

namespace Parts

/-- What `netloc.rpartition('@')` leaves after the last `@`. -/
def hostinfo (p : Parts) : Text := (p.netloc.reverse.takeWhile (· ≠ '@')).reverse

/-- The credentials with their `@`, if there are any. -/
def auth (p : Parts) : Text := p.netloc.take (p.netloc.length - p.hostinfo.length)

/-- Host and port as they are written. -/
def hostPort (p : Parts) : Text × Text :=
  if '[' ∈ p.hostinfo then
    let (host, rest) := partition ']' (partition '[' p.hostinfo).2
    (host, (partition ':' rest).2)
  else partition ':' p.hostinfo

/-- `url.hostname`; only the zone of an address keeps its case. -/
def hostname (p : Parts) : Option Text :=
  let host := p.hostPort.1
  if host = [] then none
  else some ((host.takeWhile (· ≠ '%')).map Char.toLower ++ host.dropWhile (· ≠ '%'))

/-- `url.port`. -/
def port (p : Parts) : Except ValueError (Option Nat) :=
  if p.hostPort.2 = [] then .ok none
  else
    match Python.int p.hostPort.2 with
    | some n => if n ≤ 65535 then .ok (some n) else .error {}
    | none => .error {}

end Parts

/-- `urlunsplit` with a netloc. -/
def urlunsplit (p : Parts) : Text :=
  let path := if p.path ≠ [] ∧ p.path.head? ≠ some '/' then '/' :: p.path else p.path
  (if p.scheme = [] then [] else p.scheme ++ [':']) ++ ['/', '/'] ++ p.netloc ++ path ++
    (if p.query = [] then [] else '?' :: p.query) ++
    (if p.fragment = [] then [] else '#' :: p.fragment)

/-! ## What is split off -/

/-- What the parts of a URL hold, and what they do not. -/
structure Parts.Sound (p : Parts) : Prop where
  scheme : p.scheme ≠ [] → p.scheme.head?.any Char.isAlpha = true ∧ p.scheme.all isSchemeChar = true
  lower : p.scheme.map Char.toLower = p.scheme
  netloc : ∀ c ∈ p.netloc, endsNetloc c = false ∧ isUnsafe c = false
  path : ∀ c ∈ p.path, c ≠ '?' ∧ c ≠ '#' ∧ isUnsafe c = false
  slash : p.netloc ≠ [] → p.path.head?.all (· = '/') = true
  query : ∀ c ∈ p.query, c ≠ '#' ∧ isUnsafe c = false
  fragment : ∀ c ∈ p.fragment, isUnsafe c = false

theorem mem_partition {d c : Char} {t : Text} :
    (c ∈ (partition d t).1 → c ∈ t ∧ c ≠ d) ∧ (c ∈ (partition d t).2 → c ∈ t) := by
  constructor
  · intro h
    exact ⟨(List.takeWhile_sublist _).subset h, by simpa using List.mem_takeWhile_imp h⟩
  · intro h
    exact (List.dropWhile_sublist _).subset ((List.drop_sublist 1 _).subset h)

/-- A part that is left out when it is empty. -/
theorem partition_optional {c : Char} {front back : Text} (h : c ∉ front) :
    partition c (front ++ if back = [] then [] else c :: back) = (front, back) := by
  have hall : ∀ d ∈ front, decide (d ≠ c) = true := by
    intro d hd
    rw [decide_eq_true_eq]
    rintro rfl
    exact h hd
  rw [partition, List.takeWhile_append_of_pos hall, List.dropWhile_append_of_pos hall]
  split
  · rename_i hback
    simp [hback]
  · simp

theorem cleaned_safe {url : Text} {c : Char} (h : c ∈ cleaned url) : isUnsafe c = false := by
  simpa using (List.mem_filter.mp h).2

theorem isAlpha_iff {c : Char} : c.isAlpha = true ↔
    (65 ≤ c.toNat ∧ c.toNat ≤ 90) ∨ (97 ≤ c.toNat ∧ c.toNat ≤ 122) := by
  have hdef : c.isAlpha = (decide (c.val ≥ 'A'.val ∧ c.val ≤ 'Z'.val) ||
    (decide (c.val ≥ 'a'.val) && decide (c.val ≤ 'z'.val))) := rfl
  rw [hdef]
  simp only [Bool.or_eq_true, Bool.and_eq_true, decide_eq_true_eq, UInt32.le_iff_toNat_le,
    ge_iff_le]
  rfl

theorem schemeChar_lt {c : Char} (h : isSchemeChar c = true) : c.toNat < 128 := by
  simp only [isSchemeChar, Char.isAlphanum, isAlpha_iff, Char.isDigit, Bool.or_eq_true,
    Bool.and_eq_true, decide_eq_true_eq, UInt32.le_iff_toNat_le, ge_iff_le] at h
  change ((((65 ≤ c.toNat ∧ c.toNat ≤ 90 ∨ 97 ≤ c.toNat ∧ c.toNat ≤ 122) ∨
    48 ≤ c.toNat ∧ c.toNat ≤ 57) ∨ c = '+') ∨ c = '-') ∨ c = '.' at h
  rcases h with ((h | rfl) | rfl) | rfl
  · omega
  · decide
  · decide
  · decide

theorem toLower_schemeChar {c : Char} (h : isSchemeChar c = true) :
    isSchemeChar c.toLower = true ∧ (c.isAlpha = true → c.toLower.isAlpha = true) ∧
      c.toLower.toLower = c.toLower := by
  have hall : ∀ n < 128, isSchemeChar (Char.ofNat n) = true →
      isSchemeChar (Char.ofNat n).toLower = true ∧
      ((Char.ofNat n).isAlpha = true → (Char.ofNat n).toLower.isAlpha = true) ∧
      (Char.ofNat n).toLower.toLower = (Char.ofNat n).toLower := by decide +kernel
  have := hall c.toNat (schemeChar_lt h)
  rw [Char.ofNat_toNat] at this
  exact this h

theorem splitScheme_spec (url : Text) :
    (∀ c ∈ (splitScheme url).2, c ∈ url) ∧
      ((splitScheme url).1.map Char.toLower = (splitScheme url).1) ∧
      ((splitScheme url).1 ≠ [] → (splitScheme url).1.head?.any Char.isAlpha = true ∧
        (splitScheme url).1.all isSchemeChar = true) := by
  simp only [splitScheme]
  split
  · rename_i h
    obtain ⟨_, halpha, hall⟩ := h
    have hchars := List.all_eq_true.mp hall
    refine ⟨fun c => mem_partition.2, ?_, fun _ => ⟨?_, ?_⟩⟩
    · rw [List.map_map]
      apply List.map_congr_left
      intro c hc
      exact (toLower_schemeChar (hchars c hc)).2.2
    · revert halpha hchars
      cases (partition ':' url).1 with
      | nil => simp
      | cons c scheme =>
        intro halpha hchars
        exact (toLower_schemeChar (hchars c List.mem_cons_self)).2.1 halpha
    · apply List.all_eq_true.mpr
      intro c hc
      obtain ⟨d, hd, rfl⟩ := List.mem_map.mp hc
      exact (toLower_schemeChar (hchars d hd)).1
  · exact ⟨fun c hc => hc, rfl, fun h => absurd rfl h⟩

theorem splitNetloc_spec (url : Text) :
    (∀ c ∈ (splitNetloc url).1, c ∈ url ∧ endsNetloc c = false) ∧
      (∀ c ∈ (splitNetloc url).2, c ∈ url) ∧
      ((splitNetloc url).1 ≠ [] → (splitNetloc url).2.head?.all endsNetloc = true) := by
  unfold splitNetloc
  split
  · rename_i rest
    refine ⟨?_, ?_, ?_⟩
    · intro c hc
      refine ⟨?_, by simpa using List.mem_takeWhile_imp hc⟩
      exact List.mem_cons_of_mem _ (List.mem_cons_of_mem _ ((List.takeWhile_sublist _).subset hc))
    · intro c hc
      exact List.mem_cons_of_mem _ (List.mem_cons_of_mem _ ((List.dropWhile_sublist _).subset hc))
    · intro _
      cases hrest : rest.dropWhile (!endsNetloc ·) with
      | nil => rfl
      | cons c tail =>
        have hnot := List.head_dropWhile_not (fun c => !endsNetloc c) (by simp [hrest] :
          rest.dropWhile (!endsNetloc ·) ≠ [])
        simpa [hrest] using hnot
  · exact ⟨by simp, fun c hc => hc, by simp⟩

theorem splitParts_sound (url : Text) : (splitParts url).Sound := by
  obtain ⟨hrest, hlower, hscheme⟩ := splitScheme_spec (cleaned url)
  obtain ⟨hnetloc, htail, hhead⟩ := splitNetloc_spec (splitScheme (cleaned url)).2
  have hsafe : ∀ c ∈ (splitScheme (cleaned url)).2, isUnsafe c = false := fun c hc =>
    cleaned_safe (hrest c hc)
  simp only [splitParts]
  revert hnetloc htail hhead hsafe
  generalize splitNetloc (splitScheme (cleaned url)).2 = x
  obtain ⟨netloc, tail⟩ := x
  intro hnetloc htail hhead hsafe
  simp only at hnetloc htail hhead ⊢
  have hfront : ∀ c ∈ (partition '#' tail).1, isUnsafe c = false ∧ c ≠ '#' := fun c hc =>
    ⟨hsafe c (htail c (mem_partition.1 hc).1), (mem_partition.1 hc).2⟩
  exact {
    scheme := hscheme
    lower := hlower
    netloc := fun c hc => ⟨(hnetloc c hc).2, hsafe c (hnetloc c hc).1⟩
    path := fun c hc => ⟨(mem_partition.1 hc).2, (hfront c (mem_partition.1 hc).1).2,
      (hfront c (mem_partition.1 hc).1).1⟩
    slash := by
      intro hne
      have hslash := hhead hne
      cases tail with
      | nil => rfl
      | cons c tail =>
        simp only [List.head?_cons, Option.all_some, endsNetloc, Bool.or_eq_true,
          decide_eq_true_eq] at hslash
        rcases hslash with (rfl | rfl) | rfl
        · simp [partition]
        · simp [partition]
        · simp [partition]
    query := fun c hc => ⟨(hfront c (mem_partition.2 hc)).2, (hfront c (mem_partition.2 hc)).1⟩
    fragment := fun c hc => hsafe c (htail c (mem_partition.2 hc)) }

theorem alpha_not_control {c : Char} (h : c.isAlpha = true) : isControl c = false := by
  rw [isAlpha_iff] at h
  simp only [isControl, decide_eq_false_iff_not]
  omega

theorem schemeChar_plain {c : Char} (h : isSchemeChar c = true) : c ≠ ':' ∧ isUnsafe c = false := by
  constructor
  · rintro rfl
    revert h
    decide
  · simp only [isUnsafe, Bool.or_eq_false_iff, decide_eq_false_iff_not]
    refine ⟨⟨?_, ?_⟩, ?_⟩ <;> rintro rfl <;> revert h <;> decide

/-- A URL from its netloc on. -/
def hierPart (p : Parts) : Text :=
  '/' :: '/' :: p.netloc ++ (p.path ++
    (if p.query = [] then [] else '?' :: p.query) ++
    (if p.fragment = [] then [] else '#' :: p.fragment))

theorem urlunsplit_eq {p : Parts} (h : p.Sound) (hnetloc : p.netloc ≠ []) :
    urlunsplit p = (if p.scheme = [] then [] else p.scheme ++ [':']) ++ hierPart p := by
  have hpath : (if p.path ≠ [] ∧ p.path.head? ≠ some '/' then '/' :: p.path else p.path) =
      p.path := by
    apply if_neg
    rintro ⟨hne, hhead⟩
    have hslash := h.slash hnetloc
    cases hp : p.path with
    | nil => exact hne hp
    | cons c path => simp_all
  simp only [urlunsplit, hpath, hierPart]
  simp

theorem mem_optional {c d : Char} {t : Text} (h : d ∈ if t = [] then [] else c :: t) :
    d = c ∨ d ∈ t := by
  split at h
  · cases h
  · exact List.mem_cons.mp h

theorem hierPart_safe {p : Parts} (h : p.Sound) : ∀ c ∈ hierPart p, isUnsafe c = false := by
  intro c hc
  simp only [hierPart, List.mem_append, List.mem_cons, List.cons_append] at hc
  rcases hc with rfl | rfl | hc | (hc | hc) | hc
  · decide
  · decide
  · exact (h.netloc c hc).2
  · exact (h.path c hc).2.2
  · obtain rfl | hc := mem_optional hc
    · decide
    · exact (h.query c hc).2
  · obtain rfl | hc := mem_optional hc
    · decide
    · exact h.fragment c hc

theorem cleaned_eq {c : Char} {rest : Text} (hc : isControl c = false)
    (h : ∀ d ∈ c :: rest, isUnsafe d = false) : cleaned (c :: rest) = c :: rest := by
  rw [cleaned, List.dropWhile_cons_of_neg (by simp [hc]), List.filter_eq_self]
  intro d hd
  rw [h d hd]
  rfl

theorem cleaned_urlunsplit {p : Parts} (h : p.Sound) (hnetloc : p.netloc ≠ []) :
    cleaned (urlunsplit p) = urlunsplit p := by
  rw [urlunsplit_eq h hnetloc]
  cases hscheme : p.scheme with
  | nil => exact cleaned_eq (by decide) (hierPart_safe h)
  | cons c scheme =>
    obtain ⟨halpha, hall⟩ := h.scheme (by simp [hscheme])
    rw [hscheme] at halpha hall
    rw [if_neg (List.cons_ne_nil _ _)]
    apply cleaned_eq (alpha_not_control halpha)
    intro d hd
    have hd : d ∈ (c :: scheme) ++ ':' :: hierPart p := by simpa using hd
    rcases List.mem_append.mp hd with hd | hd
    · exact (schemeChar_plain (List.all_eq_true.mp hall d hd)).2
    · rcases List.mem_cons.mp hd with rfl | hd
      · decide
      · exact hierPart_safe h d hd

theorem splitScheme_urlunsplit {p : Parts} (h : p.Sound) (hnetloc : p.netloc ≠ []) :
    splitScheme (urlunsplit p) = (p.scheme, hierPart p) := by
  rw [urlunsplit_eq h hnetloc]
  by_cases hscheme : p.scheme = []
  · have hhead : (partition ':' (hierPart p)).1.head? = some '/' := by simp [partition, hierPart]
    have hnot : ¬ (':' ∈ hierPart p ∧ (partition ':' (hierPart p)).1.head?.any Char.isAlpha = true ∧
        (partition ':' (hierPart p)).1.all isSchemeChar = true) := by
      rintro ⟨_, halpha, _⟩
      rw [hhead] at halpha
      revert halpha
      decide
    rw [if_pos hscheme, List.nil_append, hscheme]
    exact if_neg hnot
  · obtain ⟨halpha, hall⟩ := h.scheme hscheme
    have hcut : partition ':' (p.scheme ++ ':' :: hierPart p) = (p.scheme, hierPart p) := by
      have hcolon : ':' ∉ p.scheme := fun hc =>
        (schemeChar_plain (List.all_eq_true.mp hall _ hc)).1 rfl
      have hne : hierPart p ≠ [] := by simp [hierPart]
      have hpartition : partition ':' (p.scheme ++ if hierPart p = [] then [] else
          ':' :: hierPart p) = (p.scheme, hierPart p) := partition_optional hcolon
      rwa [if_neg hne] at hpartition
    rw [if_neg hscheme, List.append_assoc, List.singleton_append, splitScheme, hcut]
    simp only [halpha, hall, h.lower, List.mem_append, List.mem_cons, true_or, or_true, and_self,
      if_true]

theorem splitNetloc_hierPart {p : Parts} (h : p.Sound) (hnetloc : p.netloc ≠ []) :
    splitNetloc (hierPart p) = (p.netloc, p.path ++
      (if p.query = [] then [] else '?' :: p.query) ++
      (if p.fragment = [] then [] else '#' :: p.fragment)) := by
  have hall : ∀ c ∈ p.netloc, (!endsNetloc c) = true := by
    intro c hc
    rw [(h.netloc c hc).1]
    rfl
  have hhead : (p.path ++ (if p.query = [] then [] else '?' :: p.query) ++
      (if p.fragment = [] then [] else '#' :: p.fragment)).head?.all endsNetloc = true := by
    have hslash := h.slash hnetloc
    cases hpath : p.path with
    | cons c path =>
      rw [hpath] at hslash
      obtain rfl : c = '/' := by simpa using hslash
      rfl
    | nil =>
      by_cases hquery : p.query = []
      · by_cases hfragment : p.fragment = []
        · simp [hquery, hfragment]
        · simp [hquery, hfragment, endsNetloc]
      · simp [hquery, endsNetloc]
  rw [hierPart]
  revert hhead
  generalize p.path ++ (if p.query = [] then [] else '?' :: p.query) ++
    (if p.fragment = [] then [] else '#' :: p.fragment) = tail
  intro hhead
  simp only [List.cons_append, splitNetloc]
  rw [List.takeWhile_append_of_pos hall, List.dropWhile_append_of_pos hall]
  cases tail with
  | nil => simp
  | cons c tail =>
    have hc : endsNetloc c = true := hhead
    simp [hc]

/-- Put together and split again. -/
theorem splitParts_urlunsplit {p : Parts} (h : p.Sound) (hnetloc : p.netloc ≠ []) :
    splitParts (urlunsplit p) = p := by
  have hquery : '#' ∉ p.path ++ (if p.query = [] then [] else '?' :: p.query) := by
    intro hmem
    rcases List.mem_append.mp hmem with hmem | hmem
    · exact (h.path _ hmem).2.1 rfl
    · obtain hmem | hmem := mem_optional hmem
      · revert hmem
        decide
      · exact (h.query _ hmem).1 rfl
  have hpath : '?' ∉ p.path := fun hmem => (h.path _ hmem).1 rfl
  simp only [splitParts, cleaned_urlunsplit h hnetloc, splitScheme_urlunsplit h hnetloc,
    splitNetloc_hierPart h hnetloc, partition_optional hquery, partition_optional hpath]

/-! ## Another host -/

/-- `int` reads a number back. -/
theorem int_toDigits (n : Nat) : Python.int (Nat.toDigits 10 n) = some n := by
  have hdigits : (Nat.toDigits 10 n).all Char.isDigit = true := by
    apply List.all_eq_true.mpr
    intro c hc
    exact Nat.isDigit_of_mem_toDigits (by decide) (by decide) hc
  have hvalue := Nat.ofDigitChars_ten_toDigits (n := n)
  rw [Nat.ofDigitChars_eq_foldl] at hvalue
  rw [Python.int, if_pos ⟨Nat.toDigits_ne_nil, hdigits⟩]
  exact congrArg some hvalue

namespace Parts

/-- What stands after the last `@` of a netloc. -/
theorem hostinfo_append {p : Parts} {front back : Text}
    (hnetloc : p.netloc = front ++ back) (hfront : front = [] ∨ ∃ rest, front = rest ++ ['@'])
    (hback : '@' ∉ back) : p.hostinfo = back ∧ p.auth = front := by
  have hall : ∀ c ∈ back.reverse, decide (c ≠ '@') = true := by
    intro c hc
    rw [decide_eq_true_eq]
    rintro rfl
    exact hback (List.mem_reverse.mp hc)
  have hinfo : p.hostinfo = back := by
    rw [hostinfo, hnetloc, List.reverse_append, List.takeWhile_append_of_pos hall]
    rcases hfront with rfl | ⟨rest, rfl⟩
    · simp
    · simp
  refine ⟨hinfo, ?_⟩
  rw [auth, hinfo, hnetloc, List.length_append, Nat.add_sub_cancel]
  exact List.take_left

/-- The credentials end in their `@`. -/
theorem auth_spec (p : Parts) : p.netloc = p.auth ++ p.hostinfo ∧
    (p.auth = [] ∨ ∃ rest, p.auth = rest ++ ['@']) := by
  by_cases h : '@' ∈ p.netloc
  · obtain ⟨back, front, hsplit, hback⟩ := List.eq_append_cons_of_mem (List.mem_reverse.mpr h)
    have hnetloc : p.netloc = (front.reverse ++ ['@']) ++ back.reverse := by
      have := congrArg List.reverse hsplit
      simpa using this
    obtain ⟨hinfo, hauth⟩ := hostinfo_append hnetloc (.inr ⟨_, rfl⟩)
      (fun hmem => hback (List.mem_reverse.mp hmem))
    rw [hinfo, hauth]
    exact ⟨hnetloc, .inr ⟨_, rfl⟩⟩
  · obtain ⟨hinfo, hauth⟩ := hostinfo_append (List.nil_append p.netloc).symm (.inl rfl) h
    rw [hinfo, hauth]
    exact ⟨(List.nil_append _).symm, .inl rfl⟩

end Parts

end LinuxBuild.Url
