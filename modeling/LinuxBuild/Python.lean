/-!
# Python strings

A text is the list of its code points.
-/

namespace LinuxBuild

abbrev Text := List Char

namespace Python

/-- The line boundaries of `str.splitlines`. -/
def isLineBreak (c : Char) : Bool :=
  [0x0a, 0x0b, 0x0c, 0x0d, 0x1c, 0x1d, 0x1e, 0x85, 0x2028, 0x2029].contains c.toNat

def splitlinesFrom (line : Text) : Text → List Text
  | [] => if line = [] then [] else [line]
  | '\r' :: '\n' :: text => line :: splitlinesFrom [] text
  | c :: text =>
    if isLineBreak c then line :: splitlinesFrom [] text else splitlinesFrom (line ++ [c]) text

def splitlines (text : Text) : List Text := splitlinesFrom [] text

/-- The characters `str.strip` takes off. -/
def isSpace (c : Char) : Bool :=
  [0x09, 0x0a, 0x0b, 0x0c, 0x0d, 0x1c, 0x1d, 0x1e, 0x1f, 0x20, 0x85, 0xa0, 0x1680, 0x2000, 0x2001,
   0x2002, 0x2003, 0x2004, 0x2005, 0x2006, 0x2007, 0x2008, 0x2009, 0x200a, 0x2028, 0x2029, 0x202f,
   0x205f, 0x3000].contains c.toNat

def rstrip (text : Text) : Text := (text.reverse.dropWhile isSpace).reverse

def strip (text : Text) : Text := rstrip (text.dropWhile isSpace)

def startswith (text start : Text) : Bool := start.isPrefixOf text

theorem startswith_iff {text start : Text} :
    startswith text start = true ↔ ∃ rest, text = start ++ rest := by
  rw [startswith, List.isPrefixOf_iff_prefix]
  constructor
  · rintro ⟨rest, hrest⟩
    exact ⟨rest, hrest.symm⟩
  · rintro ⟨rest, hrest⟩
    exact ⟨rest, hrest.symm⟩

def endswith (text tail : Text) : Bool := tail.isSuffixOf text

/-- `sep.join(pieces)`. -/
def join (sep : Text) (pieces : List Text) : Text := List.intercalate sep pieces

/-- `text.split(c, 1)` of a text with `c` in it. -/
def partition (c : Char) (text : Text) : Text × Text :=
  (text.takeWhile (· ≠ c), (text.dropWhile (· ≠ c)).drop 1)

/-- `dict(pairs).get(key)`: the last pair wins. -/
def dictGet {κ α : Type} [BEq κ] (pairs : List (κ × α)) (key : κ) : Option α :=
  pairs.reverse.lookup key

/-- `dict(pairs).items()`. -/
def dictItems {κ α : Type} [BEq κ] (pairs : List (κ × α)) : List (κ × α) :=
  (pairs.map (·.1)).eraseDups.filterMap fun key => (dictGet pairs key).map (key, ·)

/-- `dict(a) == dict(b)`. -/
def dictEq {κ α : Type} [BEq κ] [BEq α] (a b : List (κ × α)) : Bool :=
  (a.map (·.1) ++ b.map (·.1)).all fun key => dictGet a key == dictGet b key

/-- `set(a) == set(b)`. -/
def setEq {α : Type} [BEq α] (a b : List α) : Bool := a.all b.contains && b.all a.contains

/-- `int(text)` of decimal digits. -/
def int (text : Text) : Option Nat :=
  if text ≠ [] ∧ text.all Char.isDigit = true then
    some (text.foldl (fun n c => 10 * n + (c.toNat - 48)) 0)
  else none

/-- `read_text` makes every line end a newline. -/
def universalNewlines : Text → Text
  | '\r' :: '\n' :: rest => '\n' :: universalNewlines rest
  | '\r' :: rest => '\n' :: universalNewlines rest
  | c :: rest => c :: universalNewlines rest
  | [] => []

theorem mem_of_lookup {κ α : Type} [BEq κ] [LawfulBEq κ] {pairs : List (κ × α)} {key : κ} {a : α}
    (h : pairs.lookup key = some a) : (key, a) ∈ pairs := by
  obtain ⟨front, back, rfl, _⟩ := List.lookup_eq_some_iff.mp h
  simp

theorem lookup_of_unique {κ α : Type} [BEq κ] [LawfulBEq κ] {pairs : List (κ × α)} {key : κ} {a : α}
    (hmem : (key, a) ∈ pairs) (h : ∀ b, (key, b) ∈ pairs → b = a) : pairs.lookup key = some a := by
  cases hlookup : pairs.lookup key with
  | none =>
    have := List.lookup_eq_none_iff.mp hlookup _ hmem
    simp at this
  | some b => rw [h b (mem_of_lookup hlookup)]

theorem mem_of_dictGet {κ α : Type} [BEq κ] [LawfulBEq κ] {pairs : List (κ × α)} {key : κ} {a : α}
    (h : dictGet pairs key = some a) : (key, a) ∈ pairs :=
  List.mem_reverse.mp (mem_of_lookup h)

theorem length_eraseDups {α : Type} [BEq α] [LawfulBEq α] (l : List α) :
    l.eraseDups.length ≤ l.length ∧ (l.eraseDups.length = l.length ↔ l.Nodup) := by
  generalize hn : l.length = n
  induction n using Nat.strongRecOn generalizing l with
  | ind n ih =>
    cases l with
    | nil => simp_all
    | cons a l =>
      have hfilter := List.length_filter_le (fun b => !b == a) l
      simp only [List.length_cons] at hn
      obtain ⟨hle, hiff⟩ := ih _ (by omega) (l.filter fun b => !b == a) rfl
      rw [List.eraseDups_cons, List.length_cons, List.nodup_cons]
      refine ⟨by omega, ?_, ?_⟩
      · intro h
        have hsame : (l.filter fun b => !b == a).length = l.length := by omega
        have hall := List.length_filter_eq_length_iff.mp hsame
        rw [List.filter_eq_self.mpr hall] at hiff h
        refine ⟨?_, hiff.mp (by omega)⟩
        intro ha
        have := hall a ha
        simp at this
      · rintro ⟨ha, hnodup⟩
        have hall : ∀ b ∈ l, (!b == a) = true := by
          intro b hb
          have hne : b ≠ a := fun h => ha (h ▸ hb)
          simpa using hne
        rw [List.filter_eq_self.mpr hall] at hiff ⊢
        rw [hiff.mpr hnodup]
        omega

theorem dictGet_isSome {κ α : Type} [BEq κ] [LawfulBEq κ] {pairs : List (κ × α)} {key : κ}
    (h : key ∈ pairs.map (·.1)) : ∃ a, dictGet pairs key = some a := by
  cases hget : dictGet pairs key with
  | some a => exact ⟨a, rfl⟩
  | none =>
    obtain ⟨pair, hpair, rfl⟩ := List.mem_map.mp h
    have := List.lookup_eq_none_iff.mp hget pair (List.mem_reverse.mpr hpair)
    simp at this

/-- Two dicts are equal exactly when they say the same of every key. -/
theorem dictEq_iff {κ α : Type} [BEq κ] [LawfulBEq κ] [BEq α] [LawfulBEq α] {a b : List (κ × α)} :
    dictEq a b = true ↔ ∀ key, dictGet a key = dictGet b key := by
  have hnone : ∀ {pairs : List (κ × α)} {key : κ}, key ∉ pairs.map (·.1) →
      dictGet pairs key = none := by
    intro pairs key hkey
    cases hget : dictGet pairs key with
    | none => rfl
    | some v => exact absurd (List.mem_map_of_mem (mem_of_dictGet hget)) hkey
  rw [dictEq, List.all_eq_true]
  constructor
  · intro h key
    by_cases hkey : key ∈ a.map (·.1) ++ b.map (·.1)
    · exact eq_of_beq (h key hkey)
    · rw [List.mem_append, not_or] at hkey
      rw [hnone hkey.1, hnone hkey.2]
  · intro h key _
    rw [h key, beq_self_eq_true]

theorem setEq_iff {α : Type} [BEq α] [LawfulBEq α] {a b : List α} :
    setEq a b = true ↔ ∀ x, x ∈ a ↔ x ∈ b := by
  simp only [setEq, Bool.and_eq_true, List.all_eq_true, List.contains_iff_mem]
  exact ⟨fun h x => ⟨h.1 x, h.2 x⟩, fun h => ⟨fun x => (h x).mp, fun x => (h x).mpr⟩⟩

/-- No pair is lost in a dict exactly when no key comes twice. -/
theorem length_dictItems {κ α : Type} [BEq κ] [LawfulBEq κ] (pairs : List (κ × α)) :
    (dictItems pairs).length = pairs.length ↔ (pairs.map (·.1)).Nodup := by
  have hkeys : (dictItems pairs).length = (pairs.map (·.1)).eraseDups.length := by
    rw [dictItems, List.length_filterMap_eq_countP, List.countP_eq_length]
    intro key hkey
    obtain ⟨a, ha⟩ := dictGet_isSome (List.mem_eraseDups.mp hkey)
    rw [ha]
    rfl
  rw [hkeys, ← (length_eraseDups (pairs.map (·.1))).2, List.length_map]

/-- `assert cond`, or an exception of its own. -/
def require {ε : Type} (cond : Bool) (e : ε) : Except ε Unit := if cond then .ok () else .error e

def orRaise {ε α : Type} (x : Option α) (e : ε) : Except ε α :=
  match x with
  | some a => .ok a
  | none => .error e

theorem require_ok {ε : Type} {cond : Bool} {e : ε} {u : Unit} (h : require cond e = .ok u) :
    cond = true := by
  unfold require at h
  split at h
  · assumption
  · cases h

@[simp] theorem require_eq_ok {ε : Type} {cond : Bool} {e : ε} {u : Unit} :
    require cond e = .ok u ↔ cond = true := by
  constructor
  · exact require_ok
  · rintro rfl
    rfl

theorem orRaise_ok {ε α : Type} {x : Option α} {e : ε} {a : α} (h : orRaise x e = .ok a) :
    x = some a := by
  cases x with
  | none => cases h
  | some b =>
    cases h
    rfl

@[simp] theorem orRaise_eq_ok {ε α : Type} {x : Option α} {e : ε} {a : α} :
    orRaise x e = .ok a ↔ x = some a := by
  constructor
  · exact orRaise_ok
  · rintro rfl
    rfl

theorem ok_getD {ε α : Type} {x : Except ε α} (h : x.toOption.isSome = true) (a : α) :
    x = .ok (x.toOption.getD a) := by
  cases x with
  | error e => cases h
  | ok b => rfl

/-- What a computation that raises nothing has gone through. -/
theorem bind_ok {ε α β : Type} {x : Except ε α} {f : α → Except ε β} {b : β}
    (h : (x >>= f) = .ok b) : ∃ a, x = .ok a ∧ f a = .ok b := by
  cases x with
  | error e => cases h
  | ok a => exact ⟨a, rfl, h⟩

theorem bind_eq_ok {ε α β : Type} {x : Except ε α} {f : α → Except ε β} {b : β} :
    (x >>= f) = .ok b ↔ ∃ a, x = .ok a ∧ f a = .ok b := by
  constructor
  · exact bind_ok
  · rintro ⟨a, rfl, h⟩
    exact h

/-- A loop of checks raises nothing when none of them does. -/
theorem forM_eq_ok {ε α : Type} {f : α → Except ε Unit} {items : List α} {u : Unit} :
    items.forM f = .ok u ↔ ∀ item ∈ items, f item = .ok () := by
  induction items with
  | nil => exact ⟨fun _ _ h => absurd h List.not_mem_nil, fun _ => rfl⟩
  | cons item items ih =>
    rw [show (item :: items).forM f = (f item >>= fun _ => items.forM f) from rfl, bind_eq_ok,
      List.forall_mem_cons, ← ih]
    constructor
    · rintro ⟨_, hitem, h⟩
      exact ⟨hitem, h⟩
    · rintro ⟨hitem, h⟩
      exact ⟨(), hitem, h⟩

theorem isOk_bind {ε α β : Type} {x : Except ε α} {f : α → Except ε β} :
    (x >>= f).isOk = true ↔ ∃ a, x = .ok a ∧ (f a).isOk = true := by
  cases x with
  | ok a =>
    constructor
    · exact fun h => ⟨a, rfl, h⟩
    · rintro ⟨b, hb, h⟩
      cases hb
      exact h
  | error e =>
    constructor
    · intro h
      cases h
    · rintro ⟨_, h, _⟩
      cases h

theorem isOk_iff {ε α : Type} {x : Except ε α} : x.isOk = true ↔ ∃ a, x = .ok a := by
  cases x with
  | ok a => exact ⟨fun _ => ⟨a, rfl⟩, fun _ => rfl⟩
  | error e =>
    constructor
    · intro h
      cases h
    · rintro ⟨_, h⟩
      cases h

/-- Whatever is made of the result, it is there. -/
theorem isOk_bind_pure {ε α β : Type} {x : Except ε α} {f : α → β} :
    (x >>= fun a => pure (f a)).isOk = true ↔ x.isOk = true := by
  rw [isOk_bind, isOk_iff]
  constructor
  · rintro ⟨a, h, -⟩
    exact ⟨a, h⟩
  · rintro ⟨a, h⟩
    exact ⟨a, h, rfl⟩

@[simp] theorem isOk_require {ε : Type} {cond : Bool} {e : ε} :
    (require cond e).isOk = true ↔ cond = true := by
  rw [isOk_iff]
  simp

@[simp] theorem isOk_orRaise {ε α : Type} {x : Option α} {e : ε} :
    (orRaise x e).isOk = true ↔ x.isSome = true := by
  rw [isOk_iff, Option.isSome_iff_exists]
  simp

/-- `if p: x`, and what follows it. -/
theorem isOk_when {ε β : Type} {p : Prop} [Decidable p] {x : Except ε Unit} {next : Except ε β} :
    (if p then x >>= fun _ => next else next).isOk = true ↔
      (p → x.isOk = true) ∧ next.isOk = true := by
  by_cases hp : p
  · rw [if_pos hp]
    cases x with
    | ok _ => exact ⟨fun h => ⟨fun _ => rfl, h⟩, fun h => h.2⟩
    | error e =>
      constructor
      · intro h
        cases h
      · rintro ⟨h, -⟩
        cases h hp
  · rw [if_neg hp]
    exact ⟨fun h => ⟨fun h' => absurd h' hp, h⟩, fun h => h.2⟩

/-- Two statements under one `if`. -/
theorem isOk_when_bind {ε α β : Type} {p : Prop} [Decidable p] {x : Except ε α}
    {y : α → Except ε Unit} {next : Except ε β} :
    (if p then x >>= fun a => y a >>= fun _ => next else next).isOk = true ↔
      (p → (x >>= y).isOk = true) ∧ next.isOk = true := by
  rw [← isOk_when]
  cases x <;> rfl

theorem isOk_when_last {ε : Type} {p : Prop} [Decidable p] {x : Except ε Unit} :
    (if p then x else pure ()).isOk = true ↔ (p → x.isOk = true) := by
  by_cases hp : p
  · rw [if_pos hp]
    exact ⟨fun h _ => h, fun h => h hp⟩
  · rw [if_neg hp]
    exact ⟨fun _ h => absurd h hp, fun _ => rfl⟩

theorem isOk_mapM {ε α β : Type} {f : α → Except ε β} {items : List α} :
    (items.mapM f).isOk = true ↔ ∀ item ∈ items, (f item).isOk = true := by
  induction items with
  | nil => exact ⟨fun _ _ h => absurd h List.not_mem_nil, fun _ => rfl⟩
  | cons item items ih =>
    rw [List.mapM_cons, isOk_bind, List.forall_mem_cons, ← ih, isOk_iff]
    constructor
    · rintro ⟨b, hb, h⟩
      exact ⟨⟨b, hb⟩, isOk_bind_pure.mp h⟩
    · rintro ⟨⟨b, hb⟩, h⟩
      exact ⟨b, hb, isOk_bind_pure.mpr h⟩

end Python

end LinuxBuild
