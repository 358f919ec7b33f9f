import LinuxBuild.Bytes
import LinuxBuild.Digest
import LinuxBuild.Fragment
import LinuxBuild.Compose
import LinuxBuild.History

/-!
# `scripts/prepare-linux.py`

Kernel sources below one source root: what `curl` and `tar` do is given, and a
run can be stopped between any two of its acts. `decimal` is `\d`.
-/

namespace LinuxBuild.PrepareLinux

open Crash

inductive Failure where
  | usage (message : Text)
  | runtime (message : Text)
  | raised
  deriving DecidableEq

/-- `re.fullmatch(r'\d+\.\d+\.\d+', version)`. -/
def isVersion (decimal : Char → Bool) (version : Text) : Bool :=
  let parts := version.splitOn '.'
  parts.length == 3 && parts.all fun part => part != [] && part.all decimal

def targetName (version : Text) : Text := text "linux-" ++ version

def archiveName (version : Text) : Text := targetName version ++ text ".tar.xz"

def partialName (version : Text) : Text := archiveName version ++ text ".partial"

def url (version : Text) : Text :=
  text "https://cdn.kernel.org/pub/linux/kernel/v" ++ version.takeWhile (· ≠ '.') ++ text ".x/"

/-! ## The published sums -/

def isLowerHex (c : Char) : Bool := ('0' ≤ c && c ≤ '9') || ('a' ≤ c && c ≤ 'f')

/-- `([0-9a-f]{64})\s+name$` at the start of a line. The name does not start
with a blank, so all blanks go to `\s+`. -/
def sumHere (name line : Text) : Option Text :=
  let sum := line.take 64
  let blanks := (line.drop 64).takeWhile Python.isSpace
  let rest := (line.drop 64).dropWhile Python.isSpace
  if sum.length = 64 ∧ sum.all isLowerHex = true ∧ blanks ≠ [] ∧
      Python.startswith rest name = true ∧ (rest.drop name.length).head?.all (· = '\n') = true then
    some sum
  else none

/-- `re.findall` with `re.M`: two matches never overlap, since none starts
within another. -/
def findSums (name : Text) : Bool → Text → List Text
  | _, [] => []
  | atStart, c :: rest =>
    (if atStart then (sumHere name (c :: rest)).toList else []) ++ findSums name (c = '\n') rest

/-! ## The source root -/

/-- `.linux-build-source.json`. -/
structure Source where
  version : Text
  archiveUrl : Text
  sha256 : Hash
  deriving DecidableEq

/-- A torn record is one whose writing was begun and not finished. -/
inductive RecordFile where
  | absent
  | torn
  | whole (source : Source)

structure Unpacked (Src : Type) where
  source : Src
  record : RecordFile

inductive Entry (Src : Type) where
  | file (content : Bytes)
  | dir (tree : Unpacked Src)

/-- The source root, and the temporary directory of the last run in it. -/
structure Root (Src : Type) where
  entries : Text → Option (Entry Src)
  temporary : Option (Unpacked Src)

/-- One run, with what the server and `curl` do: `progress` is what `curl`
leaves in its output on the way, `served` the file it exits 0 with. -/
structure Run where
  version : Text
  sums : Option Text
  progress : List Bytes
  served : Option Bytes

namespace Root

variable {Src : Type}

def fresh : Root Src := ⟨fun _ => none, none⟩

def set (name : Text) (entry : Option (Entry Src)) (s : Root Src) : Root Src :=
  { s with entries := fun n => if n = name then entry else s.entries n }

def file? (s : Root Src) (name : Text) : Option Bytes :=
  match s.entries name with
  | some (.file content) => some content
  | _ => none

/-- `curl -o` does not replace a directory. -/
def download (version : Text) (content : Bytes) (s : Root Src) : Root Src :=
  match s.entries (partialName version) with
  | some (.dir _) => s
  | _ => s.set (partialName version) (some (.file content))

/-- `partial.rename(archive)` of the entry there is. -/
def renamePartial (version : Text) (entry : Entry Src) (s : Root Src) : Root Src :=
  (s.set (partialName version) none).set (archiveName version) (some entry)

def unpack (tree : Option (Unpacked Src)) (s : Root Src) : Root Src := { s with temporary := tree }

/-- `unpacked.rename(target)`. -/
def install (version : Text) (tree : Unpacked Src) (s : Root Src) : Root Src :=
  { s.set (targetName version) (some (.dir tree)) with temporary := none }

end Root

/-! ## The program -/

section

variable {Src : Type} (decimal : Char → Bool) (sha : Digest Bytes)
  (untar : Bytes → Option (Text → Option Src)) (sourceRoot : Text)

def source (version : Text) (content : Bytes) : Source :=
  ⟨version, url version ++ archiveName version, sha.hash content⟩

/-- Behind the checksum: `tar`, the record, the rename. -/
def extract (r : Run) (content : Bytes) : Prog (Root Src) Failure :=
  .act (Root.unpack none) <|
    match (untar content).bind fun entries => entries (targetName r.version) with
    | none => .raise .raised
    | some tree =>
      acts [Root.unpack (some ⟨tree, .absent⟩), Root.unpack (some ⟨tree, .torn⟩),
        Root.unpack (some ⟨tree, .whole (source sha r.version content)⟩)] <|
        .ask fun s =>
          match s.entries (targetName r.version), s.temporary with
          | none, some unpacked => .act (Root.install r.version unpacked) .done
          | _, _ => .raise .raised

def mismatch (r : Run) : Failure :=
  .runtime (text "kernel checksum mismatch: " ++ sourceRoot ++ text "/" ++
    archiveName r.version ++ text "; existing file preserved")

/-- The checksum of the archive there is. -/
def verify (r : Run) (expected : Text) : Prog (Root Src) Failure :=
  .ask fun s =>
    match s.file? (archiveName r.version) with
    | none => .raise .raised
    | some content =>
      if sha.hash content = expected.map Char.toNat then extract sha untar r content
      else .raise (mismatch sourceRoot r)

/-- `curl`, the rename of what it leaves, and the checksum. -/
def fetch (r : Run) (expected : Text) : Prog (Root Src) Failure :=
  acts ((r.progress ++ r.served.toList).map (Root.download r.version)) <|
    if r.served = none then .raise .raised
    else
      .ask fun s =>
        match s.entries (partialName r.version) with
        | none => .raise .raised
        | some entry =>
          .act (Root.renamePartial r.version entry) (verify sha untar sourceRoot r expected)

def main (r : Run) : Prog (Root Src) Failure :=
  if isVersion decimal r.version = false then
    .raise (.usage (text "expected major.minor.patch version"))
  else
    .ask fun s =>
      match s.entries (targetName r.version), r.sums with
      | some (.dir _), _ => .done
      | _, none => .raise .raised
      | _, some sums =>
        match findSums (archiveName r.version) true sums with
        | [expected] =>
          if (s.entries (archiveName r.version)).isSome = true then
            verify sha untar sourceRoot r expected
          else fetch sha untar sourceRoot r expected
        | _ => .raise (.runtime (text "kernel.org checksum not found"))

/-! ## Names -/

section

variable {decimal}

theorem length_splitOn (c : Char) (t : Text) : (t.splitOn c).length = t.count c + 1 := by
  induction t using Bytes.split_induction c with
  | last t h => rw [List.splitOn_eq_singleton h, List.count_eq_zero_of_not_mem h, List.length_singleton]
  | piece l rest hl ih =>
    rw [List.splitOn_append_cons_self_of_not_mem hl, List.length_cons, ih, List.count_append,
      List.count_eq_zero_of_not_mem hl, List.count_cons_self, Nat.zero_add]

theorem count_of_isVersion {v : Text} (h : isVersion decimal v = true) : v.count '.' = 2 := by
  have hlen := length_splitOn '.' v
  simp only [isVersion, Bool.and_eq_true, beq_iff_eq] at h
  omega

theorem count_targetName (v : Text) : (targetName v).count '.' = v.count '.' := by
  simp [targetName, text]

theorem count_archiveName (v : Text) : (archiveName v).count '.' = v.count '.' + 2 := by
  rw [archiveName, List.count_append, count_targetName]
  rfl

theorem count_partialName (v : Text) : (partialName v).count '.' = v.count '.' + 3 := by
  rw [partialName, List.count_append, count_archiveName]
  rfl

theorem targetName_inj {v w : Text} (h : targetName v = targetName w) : v = w :=
  List.append_cancel_left h

theorem archiveName_inj {v w : Text} (h : archiveName v = archiveName w) : v = w :=
  targetName_inj (List.append_cancel_right h)

/-- Counting dots tells the three kinds of names apart. -/
theorem targetName_ne_archiveName {v w : Text} (hv : isVersion decimal v = true)
    (hw : isVersion decimal w = true) : targetName v ≠ archiveName w := by
  intro h
  have := congrArg (List.count '.') h
  rw [count_targetName, count_archiveName, count_of_isVersion hv, count_of_isVersion hw] at this
  omega

theorem targetName_ne_partialName {v w : Text} (hv : isVersion decimal v = true)
    (hw : isVersion decimal w = true) : targetName v ≠ partialName w := by
  intro h
  have := congrArg (List.count '.') h
  rw [count_targetName, count_partialName, count_of_isVersion hv, count_of_isVersion hw] at this
  omega

theorem archiveName_ne_partialName {v w : Text} (hv : isVersion decimal v = true)
    (hw : isVersion decimal w = true) : archiveName v ≠ partialName w := by
  intro h
  have := congrArg (List.count '.') h
  rw [count_archiveName, count_partialName, count_of_isVersion hv, count_of_isVersion hw] at this
  omega

end

/-! ## What a history leaves -/

/-- The tree is what `tar` makes of a download of this version, the only one
whose sum the run found published, and its record says so. -/
def Vouched (past : List Run) (r : Run) (tree : Unpacked Src) : Prop :=
  isVersion decimal r.version = true ∧
    ∃ sums expected content entries,
      r.sums = some sums ∧ findSums (archiveName r.version) true sums = [expected] ∧
      sha.hash content = expected.map Char.toNat ∧
      (∃ q ∈ past, q.version = r.version ∧ q.served = some content) ∧
      untar content = some entries ∧ entries (targetName r.version) = some tree.source ∧
      tree.record = .whole (source sha r.version content)

/-- Every directory is a vouched tree, and every file a partial download or one
that `curl` finished. -/
structure Sound (past : List Run) (s : Root Src) : Prop where
  trees : ∀ name tree, s.entries name = some (.dir tree) →
    ∃ r ∈ past, name = targetName r.version ∧ Vouched decimal sha untar past r tree
  files : ∀ name content, s.entries name = some (.file content) →
    ∃ r ∈ past, isVersion decimal r.version = true ∧
      (name = partialName r.version ∨ name = archiveName r.version ∧ r.served = some content)

variable {decimal sha untar}

theorem Vouched.mono {past past' : List Run} {r : Run} {tree : Unpacked Src}
    (h : Vouched decimal sha untar past r tree) (hsub : past ⊆ past') :
    Vouched decimal sha untar past' r tree := by
  obtain ⟨hv, sums, expected, content, entries, hsums, hfind, hhash, ⟨q, hq, hserved⟩, hrest⟩ := h
  exact ⟨hv, sums, expected, content, entries, hsums, hfind, hhash, ⟨q, hsub hq, hserved⟩, hrest⟩

namespace Sound

theorem fresh : Sound decimal sha untar [] (Root.fresh : Root Src) where
  trees _ _ h := by cases h
  files _ _ h := by cases h

theorem mono {past past' : List Run} {s : Root Src} (h : Sound decimal sha untar past s)
    (hsub : past ⊆ past') : Sound decimal sha untar past' s where
  trees name tree hdir := by
    obtain ⟨r, hr, hname, hvouched⟩ := h.trees name tree hdir
    exact ⟨r, hsub hr, hname, hvouched.mono hsub⟩
  files name content hfile := by
    obtain ⟨r, hr, hrest⟩ := h.files name content hfile
    exact ⟨r, hsub hr, hrest⟩

variable {past : List Run} {s : Root Src} {r : Run}

theorem unpack (h : Sound decimal sha untar past s) (tree : Option (Unpacked Src)) :
    Sound decimal sha untar past (s.unpack tree) := ⟨h.trees, h.files⟩

/-- An entry that may be there is set. -/
theorem set (h : Sound decimal sha untar past s) (name : Text) (entry : Option (Entry Src))
    (hdir : ∀ tree, entry = some (.dir tree) →
      ∃ r ∈ past, name = targetName r.version ∧ Vouched decimal sha untar past r tree)
    (hfile : ∀ content, entry = some (.file content) →
      ∃ r ∈ past, isVersion decimal r.version = true ∧
        (name = partialName r.version ∨ name = archiveName r.version ∧ r.served = some content)) :
    Sound decimal sha untar past (s.set name entry) where
  trees n tree hn := by
    simp only [Root.set] at hn
    split at hn
    · rename_i heq
      rw [heq]
      exact hdir tree hn
    · exact h.trees n tree hn
  files n content hn := by
    simp only [Root.set] at hn
    split at hn
    · rename_i heq
      rw [heq]
      exact hfile content hn
    · exact h.files n content hn

/-- No tree stands where a download does. -/
theorem partial_not_dir (h : Sound decimal sha untar past s) (hv : isVersion decimal r.version = true)
    (tree : Unpacked Src) : s.entries (partialName r.version) ≠ some (.dir tree) := by
  intro hdir
  obtain ⟨q, -, hname, hvouched⟩ := h.trees _ tree hdir
  exact targetName_ne_partialName hvouched.1 hv hname.symm

theorem archive_not_dir (h : Sound decimal sha untar past s) (hv : isVersion decimal r.version = true)
    (tree : Unpacked Src) : s.entries (archiveName r.version) ≠ some (.dir tree) := by
  intro hdir
  obtain ⟨q, -, hname, hvouched⟩ := h.trees _ tree hdir
  exact targetName_ne_archiveName hvouched.1 hv hname.symm

theorem download_eq (h : Sound decimal sha untar past s) (hv : isVersion decimal r.version = true)
    (content : Bytes) :
    s.download r.version content = s.set (partialName r.version) (some (.file content)) := by
  rw [Root.download]
  split
  · rename_i tree hdir
    exact absurd hdir (h.partial_not_dir hv tree)
  · rfl

theorem download (h : Sound decimal sha untar past s) (hr : r ∈ past)
    (hv : isVersion decimal r.version = true) (content : Bytes) :
    Sound decimal sha untar past (s.download r.version content) := by
  rw [h.download_eq hv]
  refine h.set _ _ ?_ ?_
  · rintro tree ⟨⟩
  · rintro _ ⟨⟩
    exact ⟨r, hr, hv, .inl rfl⟩

theorem renamePartial (h : Sound decimal sha untar past s) (hr : r ∈ past)
    (hv : isVersion decimal r.version = true) {content : Bytes} (hserved : r.served = some content) :
    Sound decimal sha untar past (s.renamePartial r.version (.file content)) := by
  refine Sound.set (h.set _ none ?_ ?_) _ _ ?_ ?_
  · rintro tree ⟨⟩
  · rintro content ⟨⟩
  · rintro tree ⟨⟩
  · rintro _ ⟨⟩
    exact ⟨r, hr, hv, .inr ⟨rfl, hserved⟩⟩

/-- The archive there is was downloaded for its version. -/
theorem archive (h : Sound decimal sha untar past s) (hv : isVersion decimal r.version = true)
    {content : Bytes} (harchive : s.file? (archiveName r.version) = some content) :
    ∃ q ∈ past, q.version = r.version ∧ q.served = some content := by
  have hfile : s.entries (archiveName r.version) = some (.file content) := by
    rw [Root.file?] at harchive
    split at harchive
    · rename_i c hc
      cases harchive
      exact hc
    · cases harchive
  obtain ⟨q, hq, hqv, hname | ⟨hname, hserved⟩⟩ := h.files _ content hfile
  · exact absurd hname (archiveName_ne_partialName hv hqv)
  · exact ⟨q, hq, (archiveName_inj hname).symm, hserved⟩

end Sound

/-! ## What a run keeps, wherever it stops -/

variable {past : List Run} {s : Root Src} {r : Run} {sourceRoot : Text}

theorem safe_extract (h : Sound decimal sha untar past s) (hr : r ∈ past)
    (hv : isVersion decimal r.version = true) {sums expected : Text} {content : Bytes}
    (hsums : r.sums = some sums) (hfind : findSums (archiveName r.version) true sums = [expected])
    (hhash : sha.hash content = expected.map Char.toNat)
    (hserved : ∃ q ∈ past, q.version = r.version ∧ q.served = some content) :
    Safe (Sound decimal sha untar past) (extract sha untar r content) s := by
  unfold extract
  apply safe_act h
  split
  · exact safe_raise (h.unpack _)
  rename_i tree htree
  obtain ⟨entries, huntar, hentry⟩ := Option.bind_eq_some_iff.mp htree
  apply safe_cons (h.unpack _)
  apply safe_cons (h.unpack _)
  apply safe_cons (h.unpack _)
  apply safe_ask
  have hlast := h.unpack (some ⟨tree, .whole (source sha r.version content)⟩)
  split
  · rename_i unpacked htarget htemporary
    apply safe_act hlast
    apply safe_done
    cases htemporary
    refine Sound.unpack (hlast.set _ (some (.dir _)) ?_ ?_) none
    · rintro _ ⟨⟩
      exact ⟨r, hr, rfl, hv, sums, expected, content, entries, hsums, hfind, hhash, hserved, huntar,
        hentry, rfl⟩
    · rintro _ ⟨⟩
  · exact safe_raise hlast

theorem safe_verify (h : Sound decimal sha untar past s) (hr : r ∈ past)
    (hv : isVersion decimal r.version = true) {sums expected : Text} (hsums : r.sums = some sums)
    (hfind : findSums (archiveName r.version) true sums = [expected]) :
    Safe (Sound decimal sha untar past) (verify sha untar sourceRoot r expected) s := by
  unfold verify
  apply safe_ask
  split
  · exact safe_raise h
  rename_i content harchive
  split
  · rename_i hhash
    exact safe_extract h hr hv hsums hfind hhash (h.archive hv harchive)
  · exact safe_raise h

theorem safe_fetch (h : Sound decimal sha untar past s) (hr : r ∈ past)
    (hv : isVersion decimal r.version = true) {sums expected : Text} (hsums : r.sums = some sums)
    (hfind : findSums (archiveName r.version) true sums = [expected]) :
    Safe (Sound decimal sha untar past) (fetch sha untar sourceRoot r expected) s := by
  have hdownload : ∀ f ∈ r.progress.map fun c (s : Root Src) => s.download r.version c, ∀ s,
      Sound decimal sha untar past s → Sound decimal sha untar past (f s) := by
    intro f hf s hs
    obtain ⟨content, -, rfl⟩ := List.mem_map.mp hf
    exact hs.download hr hv content
  unfold fetch
  rw [List.map_append, acts, List.foldr_append]
  apply safe_acts h hdownload
  intro s hs
  split
  · rename_i hnone
    rw [hnone]
    exact safe_raise hs
  -- the last content `curl` leaves is what is renamed
  obtain ⟨content, hserved⟩ := Option.ne_none_iff_exists'.mp ‹r.served ≠ none›
  rw [hserved]
  have hs' := hs.download hr hv content
  apply safe_act hs
  apply safe_ask
  rw [hs.download_eq hv] at hs' ⊢
  simp only [Root.set, if_true]
  apply safe_act hs'
  exact safe_verify (hs'.renamePartial hr hv hserved) hr hv hsums hfind

theorem safe_main (h : Sound decimal sha untar past s) (r : Run) :
    Safe (Sound decimal sha untar (past ++ [r])) (main decimal sha untar sourceRoot r) s := by
  have h' := h.mono (List.subset_append_left past [r])
  have hr : r ∈ past ++ [r] := List.mem_append_right _ List.mem_cons_self
  unfold main
  split
  · exact safe_raise h'
  rename_i hv
  have hv : isVersion decimal r.version = true := by simpa using hv
  apply safe_ask
  split
  · exact safe_done h'
  · exact safe_raise h'
  rename_i sums hsums _
  split
  · rename_i expected hfind
    split
    · exact safe_verify h' hr hv hsums hfind
    · exact safe_fetch h' hr hv hsums hfind
  · exact safe_raise h'

theorem sound_history (runs : List (Run × Nat)) :
    Sound decimal sha untar (runs.map (·.1))
      (history (main decimal sha untar sourceRoot) (.fresh : Root Src) runs) :=
  history_induction Sound.fresh (fun _ r _ h => safe_main h r) runs

/-! ## A tree that is there -/

/-- The acts of a run on another version. -/
theorem main_elsewhere {version : Text} {tree : Unpacked Src} (hne : r.version ≠ version)
    (hversion : isVersion decimal version = true) (hv : isVersion decimal r.version = true) :
    ActsOnly (fun f => ∀ s : Root Src, s.entries (targetName version) = some (.dir tree) →
      (f s).entries (targetName version) = some (.dir tree))
      (main decimal sha untar sourceRoot r) := by
  have hset : ∀ name entry (s : Root Src), targetName version ≠ name →
      s.entries (targetName version) = some (.dir tree) →
      (s.set name entry).entries (targetName version) = some (.dir tree) := by
    intro name entry s hname hs
    rw [Root.set]
    exact (if_neg hname).trans hs
  have hpart := targetName_ne_partialName hversion hv
  have harchive := targetName_ne_archiveName hversion hv
  have hextract : ∀ content, ActsOnly (fun f => ∀ s : Root Src,
      s.entries (targetName version) = some (.dir tree) →
      (f s).entries (targetName version) = some (.dir tree)) (extract sha untar r content) := by
    intro content
    refine ⟨fun _ h => h, ?_⟩
    split
    · trivial
    refine ⟨fun _ h => h, fun _ h => h, fun _ h => h, ?_⟩
    apply actsOnly_ask
    intro s
    split
    · exact ⟨fun s hs => hset _ _ s (fun h => hne (targetName_inj h).symm) hs, trivial⟩
    · trivial
  have hverify : ∀ expected, ActsOnly (fun f => ∀ s : Root Src,
      s.entries (targetName version) = some (.dir tree) →
      (f s).entries (targetName version) = some (.dir tree))
      (verify sha untar sourceRoot r expected) := by
    intro expected
    apply actsOnly_ask
    intro s
    split
    · trivial
    split
    · exact hextract _
    · trivial
  unfold main
  split
  · trivial
  apply actsOnly_ask
  intro s
  split
  · trivial
  · trivial
  split
  · split
    · exact hverify _
    refine actsOnly_acts ?_ ?_
    · intro f hf s hs
      obtain ⟨content, -, rfl⟩ := List.mem_map.mp hf
      rw [Root.download]
      split
      · exact hs
      · exact hset _ _ s hpart hs
    split
    · trivial
    apply actsOnly_ask
    intro s
    split
    · trivial
    · exact ⟨fun s hs => hset _ _ _ harchive (hset _ _ s hpart hs), hverify _⟩
  · trivial

/-- A run leaves the trees alone, its own version's first of all. -/
theorem main_keeps_tree {version : Text} {tree : Unpacked Src}
    (hversion : isVersion decimal version = true)
    (hs : s.entries (targetName version) = some (.dir tree)) (r : Run) :
    Safe (fun s => s.entries (targetName version) = some (.dir tree))
      (main decimal sha untar sourceRoot r) s := by
  by_cases hv : isVersion decimal r.version = true
  · by_cases heq : r.version = version
    · subst heq
      rw [main, if_neg (by simp [hv])]
      apply safe_ask
      rw [hs]
      exact safe_done hs
    · exact safe_of_actsOnly (main_elsewhere heq hversion hv) hs
  · rw [main, if_pos (by simpa using hv)]
    exact safe_raise hs

variable (decimal sha untar sourceRoot)

/-- A root that has seen the runs, and what it is after more of them. -/
structure Trusted (runs more : List Run) (s s' : Root Src) : Prop where
  vouched : ∀ version tree, s.entries (targetName version) = some (.dir tree) →
    ∃ r ∈ runs, r.version = version ∧ Vouched decimal sha untar runs r tree
  kept : ∀ version tree, s.entries (targetName version) = some (.dir tree) →
    s'.entries (targetName version) = some (.dir tree)

/-- Wherever runs stop, a source tree is there only as it was unpacked from a
download with the published sum, and then for good. -/
theorem source_trees_verified (runs more : List (Run × Nat)) :
    Trusted decimal sha untar (runs.map (·.1)) (more.map (·.1))
      (history (main decimal sha untar sourceRoot) (.fresh : Root Src) runs)
      (history (main decimal sha untar sourceRoot) (.fresh : Root Src) (runs ++ more)) where
  vouched version tree h := by
    obtain ⟨r, hr, hname, hvouched⟩ := (sound_history runs).trees _ tree h
    exact ⟨r, hr, (targetName_inj hname).symm, hvouched⟩
  kept version tree h := by
    obtain ⟨r, hr, hname, hvouched⟩ := (sound_history runs).trees _ tree h
    have hversion : isVersion decimal version = true := targetName_inj hname ▸ hvouched.1
    rw [history_append]
    exact history_induction
      (I := fun _ (s : Root Src) => s.entries (targetName version) = some (.dir tree)) h
      (fun _ r _ hs => main_keeps_tree hversion hs r) more

/-! ## Recovery -/

/-- A run whose server publishes the sum of what it serves. -/
structure Honest (r : Run) (content : Bytes) : Prop where
  version : isVersion decimal r.version = true
  served : r.served = some content
  published : ∃ sums expected, r.sums = some sums ∧
    findSums (archiveName r.version) true sums = [expected] ∧
    sha.hash content = expected.map Char.toNat
  unpacks : ∃ entries tree, untar content = some entries ∧
    entries (targetName r.version) = some tree

variable {decimal sha untar sourceRoot}

/-- With the right archive in place, the tree is unpacked. -/
theorem verify_run {content : Bytes} (h : Honest decimal sha untar r content) {expected : Text}
    (hhash : sha.hash content = expected.map Char.toNat)
    (harchive : s.file? (archiveName r.version) = some content)
    (htarget : s.entries (targetName r.version) = none) :
    ∃ tree s', run (verify sha untar sourceRoot r expected) s = (none, s') ∧
      s'.entries (targetName r.version) = some (.dir tree) := by
  obtain ⟨entries, tree, huntar, hentry⟩ := h.unpacks
  simp only [verify, run, harchive, hhash, if_true, extract, huntar, Option.bind_some, hentry]
  rw [run_acts]
  simp only [applyAll_cons, applyAll_nil, run, Root.unpack, htarget]
  refine ⟨⟨tree, .whole (source sha r.version content)⟩, _, rfl, ?_⟩
  simp only [Root.install, Root.set, if_true]

/-- What stands under the target's name in a sound root is a tree. -/
theorem Sound.target_none (h : Sound decimal sha untar past s)
    (hv : isVersion decimal r.version = true)
    (hdir : ∀ tree, s.entries (targetName r.version) ≠ some (.dir tree)) :
    s.entries (targetName r.version) = none := by
  cases hentry : s.entries (targetName r.version) with
  | none => rfl
  | some entry =>
    cases entry with
    | dir tree => exact absurd hentry (hdir tree)
    | file content =>
      obtain ⟨q, -, hqv, hname | ⟨hname, -⟩⟩ := h.files _ content hentry
      · exact absurd hname (targetName_ne_partialName hv hqv)
      · exact absurd hname (targetName_ne_archiveName hv hqv)

/-- Downloads end with the file that was served last. -/
theorem download_last (h : Sound decimal sha untar past s) (hr : r ∈ past)
    (hv : isVersion decimal r.version = true) (progress : List Bytes) (content : Bytes) :
    (applyAll ((progress ++ [content]).map (Root.download r.version)) s).entries
        (partialName r.version) = some (.file content) ∧
      ∀ name, name ≠ partialName r.version →
        (applyAll ((progress ++ [content]).map (Root.download r.version)) s).entries name =
          s.entries name := by
  induction progress generalizing s with
  | nil =>
    simp only [List.nil_append, List.map_cons, List.map_nil, applyAll_cons, applyAll_nil]
    rw [h.download_eq hv]
    exact ⟨if_pos rfl, fun name hname => if_neg hname⟩
  | cons first progress ih =>
    obtain ⟨hpart, hother⟩ := ih (h.download hr hv first)
    refine ⟨hpart, fun name hname => (hother name hname).trans ?_⟩
    rw [h.download_eq hv]
    exact if_neg hname

/-- The run fetches the archive and unpacks it. -/
theorem fetch_run (hs : Sound decimal sha untar past s) (hr : r ∈ past)
    {content : Bytes} (h : Honest decimal sha untar r content) {expected : Text}
    (hhash : sha.hash content = expected.map Char.toNat)
    (htarget : s.entries (targetName r.version) = none) :
    ∃ tree s', run (fetch sha untar sourceRoot r expected) s = (none, s') ∧
      s'.entries (targetName r.version) = some (.dir tree) := by
  obtain ⟨hpart, hother⟩ := download_last hs hr h.version r.progress content
  rw [fetch, run_acts, h.served, Option.toList_some, if_neg (Option.some_ne_none content)]
  simp only [run, hpart]
  apply verify_run h hhash
  · simp only [Root.file?, Root.renamePartial, Root.set, if_true]
  · have hpartName := targetName_ne_partialName h.version h.version
    have harchiveName := targetName_ne_archiveName h.version h.version
    simp only [Root.renamePartial, Root.set, if_neg hpartName, if_neg harchiveName]
    rw [hother _ hpartName, htarget]

theorem main_existing (hv : isVersion decimal r.version = true) {tree : Unpacked Src}
    (htree : s.entries (targetName r.version) = some (.dir tree)) :
    run (main decimal sha untar sourceRoot r) s = (none, s) := by
  rw [main, if_neg (by simp [hv])]
  simp only [run, htree]

/-- Without a tree the run checks the archive that is there, or fetches one. -/
theorem main_missing (hs : Sound decimal sha untar past s) (hv : isVersion decimal r.version = true)
    {sums expected : Text} (hsums : r.sums = some sums)
    (hfind : findSums (archiveName r.version) true sums = [expected])
    (hdir : ∀ tree, s.entries (targetName r.version) ≠ some (.dir tree)) :
    run (main decimal sha untar sourceRoot r) s =
      if (s.entries (archiveName r.version)).isSome = true then
        run (verify sha untar sourceRoot r expected) s
      else run (fetch sha untar sourceRoot r expected) s := by
  rw [main, if_neg (by simp [hv])]
  simp only [run, hs.target_none hv hdir, hsums, hfind]
  split <;> rfl

/-- Another archive is refused, and left where it is. -/
theorem verify_other {content other : Bytes} {expected : Text}
    (hhash : sha.hash content = expected.map Char.toNat)
    (hother : s.file? (archiveName r.version) = some other) (hne : other ≠ content) :
    run (verify sha untar sourceRoot r expected) s = (some (mismatch sourceRoot r), s) := by
  have hdiffers : sha.hash other ≠ expected.map Char.toNat :=
    fun heq => hne (sha.injective (heq.trans hhash.symm))
  simp only [verify, run, hother, if_neg hdiffers]

/-- Whatever tree a run leaves, an archive that a run for its version read had it. -/
theorem left_vouched {s' : Root Src} {tree : Unpacked Src}
    (hs : Sound decimal sha untar past s')
    (htree : s'.entries (targetName r.version) = some (.dir tree)) :
    ∃ q ∈ past, q.version = r.version ∧ Vouched decimal sha untar past q tree := by
  obtain ⟨q, hq, hname, hvouched⟩ := hs.trees _ tree htree
  exact ⟨q, hq, (targetName_inj hname).symm, hvouched⟩

/-- A tree is there, or nothing stands in the way of one. -/
def Recoverable (r : Run) (content : Bytes) (s : Root Src) : Prop :=
  (∃ tree, s.entries (targetName r.version) = some (.dir tree)) ∨
    s.entries (archiveName r.version) = none ∨ s.file? (archiveName r.version) = some content

variable (decimal sha untar sourceRoot)

/-- What the run comes to in a root it can repair, and in one it cannot. -/
structure Outcome (past : List Run) (r : Run) (content : Bytes) (s : Root Src) : Prop where
  repaired : Recoverable r content s → ∃ tree s',
    run (main decimal sha untar sourceRoot r) s = (none, s') ∧
      s'.entries (targetName r.version) = some (.dir tree) ∧
      ∃ q ∈ past ++ [r], q.version = r.version ∧ Vouched decimal sha untar (past ++ [r]) q tree
  refused : ¬ Recoverable r content s →
    run (main decimal sha untar sourceRoot r) s = (some (mismatch sourceRoot r), s)

/-- After any history, a run with an honest server leaves a vouched tree behind
unless there is none yet and an archive with other bytes is in the way; it
preserves such a file, so no later run gets any further. -/
theorem source_root_repaired_or_preserved (runs : List (Run × Nat)) {r : Run} {content : Bytes}
    (h : Honest decimal sha untar r content) :
    Outcome decimal sha untar sourceRoot (runs.map (·.1)) r content
      (history (main decimal sha untar sourceRoot) (.fresh : Root Src) runs) := by
  have hsound : Sound decimal sha untar (runs.map (·.1) ++ [r])
      (history (main decimal sha untar sourceRoot) (.fresh : Root Src) runs) :=
    (sound_history runs).mono (List.subset_append_left _ _)
  have hafter : ∀ {stop s'}, run (main decimal sha untar sourceRoot r)
      (history (main decimal sha untar sourceRoot) (.fresh : Root Src) runs) = (stop, s') →
      Sound decimal sha untar (runs.map (·.1) ++ [r]) s' :=
    Safe.run (safe_main (sound_history runs) r)
  have hr : r ∈ runs.map (·.1) ++ [r] := List.mem_append_right _ List.mem_cons_self
  generalize history (main decimal sha untar sourceRoot) (.fresh : Root Src) runs = s
    at hsound hafter ⊢
  obtain ⟨sums, expected, hsums, hfind, hhash⟩ := h.published
  constructor
  · intro hcan
    suffices hleft : ∃ tree s', run (main decimal sha untar sourceRoot r) s = (none, s') ∧
        s'.entries (targetName r.version) = some (.dir tree) by
      obtain ⟨tree, s', hrun, htree⟩ := hleft
      exact ⟨tree, s', hrun, htree, left_vouched (hafter hrun) htree⟩
    by_cases hdir : ∃ tree, s.entries (targetName r.version) = some (.dir tree)
    · obtain ⟨tree, htree⟩ := hdir
      exact ⟨tree, s, main_existing h.version htree, htree⟩
    have hdir' := fun tree htree => hdir ⟨tree, htree⟩
    have htarget := hsound.target_none h.version hdir'
    rw [main_missing hsound h.version hsums hfind hdir']
    rcases hcan with htree | hnone | hfile
    · exact absurd htree hdir
    · rw [hnone]
      exact fetch_run hsound hr h hhash htarget
    · have hsome : (s.entries (archiveName r.version)).isSome = true := by
        rw [Root.file?] at hfile
        split at hfile
        · rename_i hentry
          rw [hentry]
          rfl
        · cases hfile
      rw [if_pos hsome]
      exact verify_run h hhash hfile htarget
  · intro hcannot
    obtain ⟨hdir, hnone, hfile⟩ : (¬ ∃ tree, s.entries (targetName r.version) = some (.dir tree)) ∧
        s.entries (archiveName r.version) ≠ none ∧
        s.file? (archiveName r.version) ≠ some content := by
      simpa only [Recoverable, not_or] using hcannot
    rw [main_missing hsound h.version hsums hfind fun tree htree => hdir ⟨tree, htree⟩,
      if_pos (Option.isSome_iff_ne_none.mpr hnone)]
    obtain ⟨entry, hentry⟩ := Option.ne_none_iff_exists'.mp hnone
    cases entry with
    | dir tree => exact absurd hentry (hsound.archive_not_dir h.version tree)
    | file other =>
      have hother : s.file? (archiveName r.version) = some other := by
        rw [Root.file?, hentry]
      apply verify_other hhash hother
      rintro rfl
      exact hfile hother

end

/-! ## A wrong download -/

def sampleArchive : Bytes := [1, 2, 3]

def sampleSum : Text := List.replicate 64 'a'

/-- The sample's sum is hexadecimal, as the published ones are. -/
def sampleSha : Digest Bytes where
  hash content := if content = sampleArchive then sampleSum.map Char.toNat
    else 0 :: content.map UInt8.toNat
  injective a b h := by
    dsimp only at h
    split at h <;> split at h
    · simp_all
    · cases h
    · cases h
    · exact Digest.bytes_injective (List.cons.inj h).2
  nonempty a := by split <;> simp [sampleSum]

def sampleUntar : Bytes → Option (Text → Option Unit) := fun _ => some fun _ => some ()

def honestRun : Run where
  version := text "6.18.51"
  sums := some (sampleSum ++ text "  linux-6.18.51.tar.xz\n")
  progress := [[], [1]]
  served := some sampleArchive

/-- A run that is served something else. -/
def strayRun : Run := { honestRun with served := some [9] }

theorem honest_sample : Honest Char.isDigit sampleSha sampleUntar honestRun sampleArchive where
  version := by decide
  served := rfl
  published := ⟨_, sampleSum, rfl, by decide, rfl⟩
  unpacks := ⟨_, (), rfl, rfl⟩

/-- The stray archive stays, and the honest run refuses. -/
theorem source_root_preserved_stray :
    run (main Char.isDigit sampleSha sampleUntar (text "/linux") honestRun)
        (history (main Char.isDigit sampleSha sampleUntar (text "/linux")) .fresh [(strayRun, 9)]) =
      (some (mismatch (text "/linux") honestRun),
        history (main Char.isDigit sampleSha sampleUntar (text "/linux")) .fresh [(strayRun, 9)]) :=
  (source_root_repaired_or_preserved Char.isDigit sampleSha sampleUntar (text "/linux")
    [(strayRun, 9)] honest_sample).refused (by
      have harchive : (history (main Char.isDigit sampleSha sampleUntar (text "/linux")) .fresh
          [(strayRun, 9)]).entries (archiveName honestRun.version) = some (.file [9]) := rfl
      have htarget : (history (main Char.isDigit sampleSha sampleUntar (text "/linux")) .fresh
          [(strayRun, 9)]).entries (targetName honestRun.version) = none := rfl
      rintro (⟨tree, htree⟩ | hnone | hfile)
      · rw [htarget] at htree
        cases htree
      · rw [harchive] at hnone
        cases hnone
      · rw [Root.file?, harchive] at hfile
        cases hfile)

end LinuxBuild.PrepareLinux
