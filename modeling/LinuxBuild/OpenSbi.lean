import LinuxBuild.Digest
import LinuxBuild.Util

/-!
# `scripts/prepare-opensbi.py` and `build_opensbi_with_kernel`

The stamp names the last build that succeeded. OpenSBI's make builds what is
missing and looks at nothing else, so an output remembers the request it was
built for.
-/

namespace LinuxBuild.OpenSbi

structure Identity where
  bits : Word
  isa : String
  compiler : String
  compilerVersion : String
  deriving DecidableEq

/-- What the command line, the kernel file and the compiler say. -/
structure Request where
  bits : Word
  isa : String
  compiler : String
  compilerVersion : String
  kernel : String
  image : Bytes
  fdtOffset : Int
  deriving DecidableEq

def Request.identity (r : Request) : Identity := ⟨r.bits, r.isa, r.compiler, r.compilerVersion⟩

/-- The content of `.build-inputs.json`. -/
structure Inputs where
  schema : Nat
  identity : Identity
  kernel : String
  kernelSha256 : Hash
  fdtOffset : Int
  deriving DecidableEq

def Request.inputs (sha : Digest Bytes) (r : Request) : Inputs :=
  ⟨1, r.identity, r.kernel, sha.hash r.image, r.fdtOffset⟩

/-- `struct` format `<Q`. -/
def unpackU64 (bytes : Bytes) : Nat := (bytes.take 8).foldr (fun b n => b.toNat + 256 * n) 0

def textOffset (image : Bytes) : Nat := unpackU64 (image.drop 8)

def memorySize (image : Bytes) : Nat := unpackU64 (image.drop 16)

def expectedOffset : Word → Nat
  | .rv32 => 0x400000
  | .rv64 => 0x200000

def hex (n : Nat) : String := "0x" ++ String.ofList (Nat.toDigits 16 n)

/-- The checks before anything is removed, in order. -/
def Request.check (r : Request) : Except String Unit :=
  if r.image.length < 64 || (r.image.drop 48).take 5 ≠ ascii "RISCV" then
    .error "kernel is not a RISC-V Image"
  else if textOffset r.image ≠ expectedOffset r.bits then
    .error ("Image load offset " ++ hex (textOffset r.image) ++ " differs from generic OpenSBI " ++
      hex (expectedOffset r.bits))
  else if r.fdtOffset < textOffset r.image + max (memorySize r.image) r.image.length then
    .error "DTB relocation overlaps kernel memory (including BSS)"
  else if r.fdtOffset % 8 ≠ 0 then .error "DTB relocation must be 8-byte aligned"
  else .ok ()

/-- The suffixes of `fw_payload` that a new layout removes. -/
inductive Suffix where
  | o
  | elf
  | bin
  deriving DecidableEq, Repr

/-- A file under `platform/` or `lib/`. -/
inductive Output (Obj : Type) where
  | payload (suffix : Suffix)
  | object (name : Obj)

/-- The OpenSBI output directory. An output that exists remembers what it was
built for. -/
structure Dir (Obj : Type) where
  stamp : Option Inputs
  pending : Option Inputs
  outputs : Output Obj → Option Request

section

variable {Obj : Type} (sha : Digest Bytes)

/-- The outputs `main` leaves: none for a new identity, none of `fw_payload`
for other inputs. -/
def kept (r : Request) (d : Dir Obj) : Output Obj → Option Request :=
  if d.stamp.map (·.identity) ≠ some r.identity then fun _ => none
  else if d.stamp ≠ some (r.inputs sha) then
    fun
      | .payload _ => none
      | .object name => d.outputs (.object name)
  else d.outputs

def prepare (r : Request) (d : Dir Obj) : Except String (Dir Obj) :=
  match r.check with
  | .error e => .error e
  | .ok () => .ok { d with outputs := kept sha r d, pending := some (r.inputs sha) }

/-- One `make build_opensbi_with_kernel`: a failing OpenSBI make has rebuilt
those of the missing outputs that `rebuilt` names. -/
structure Attempt (Obj : Type) where
  request : Request
  rebuilt : Output Obj → Bool
  succeeds : Bool

/-- OpenSBI's make: missing outputs only. -/
def opensbiMake (a : Attempt Obj) (d : Dir Obj) : Dir Obj :=
  { d with
    outputs := fun o =>
      match d.outputs o with
      | some built => some built
      | none => if a.succeeds || a.rebuilt o then some a.request else none }

def attempt (d : Dir Obj) (a : Attempt Obj) : Dir Obj :=
  match prepare sha a.request d with
  | .error _ => d
  | .ok d =>
    let d := opensbiMake a d
    if a.succeeds then { d with stamp := d.pending, pending := none } else d

/-- The checks pass and the make succeeds, so the stamp is renamed. -/
def Attempt.Stamps (a : Attempt Obj) : Prop := a.request.check = .ok () ∧ a.succeeds = true

/-- Same compiler and ISA, same kernel and FDT offset. -/
def SamePayload (built r : Request) : Prop :=
  built.identity = r.identity ∧ built.image = r.image ∧ built.fdtOffset = r.fdtOffset

/-- What a success promises of the outputs. -/
structure Fresh (d : Dir Obj) (r : Request) : Prop where
  objects : ∀ name, ∃ built, d.outputs (.object name) = some built ∧ built.identity = r.identity
  payloads : ∀ suffix, ∃ built, d.outputs (.payload suffix) = some built ∧ SamePayload built r

/-- Every success of the run leaves outputs of its own inputs only. -/
def AllFresh : Dir Obj → List (Attempt Obj) → Prop
  | _, [] => True
  | d, a :: rest => (a.Stamps → Fresh (attempt sha d a) a.request) ∧ AllFresh (attempt sha d a) rest

end

/-! ## What the attempts alone say -/

section

variable {Obj : Type} {sha : Digest Bytes}

/-- `foreign`: the last failed attempt under another identity than the stamp's
rebuilt an object outside `fw_payload`. `stale`: the last failed attempt with
other inputs than the stamp's rebuilt a part of another `fw_payload`. -/
structure Memory where
  stamp : Option Request
  foreign : Prop
  stale : Prop

def Memory.start : Memory := ⟨none, False, False⟩

open Classical in
/-- The attempt after the ones remembered. -/
noncomputable def Memory.after (m : Memory) (a : Attempt Obj) : Memory :=
  if a.Stamps then ⟨some a.request, False, False⟩
  else
    match a.request.check, m.stamp with
    | .ok (), some s =>
      { stamp := some s
        foreign := if a.request.identity = s.identity then m.foreign
          else ∃ name, a.rebuilt (.object name) = true
        stale := if a.request = s then m.stale
          else ¬ SamePayload a.request s ∧ ∃ suffix, a.rebuilt (.payload suffix) = true }
    | _, _ => m

/-- A success under the stamp's identity finds no object of a failed attempt
under another, and one with the stamp's inputs no part of another payload. -/
def Memory.Allows (m : Memory) (r : Request) : Prop :=
  ∀ s, m.stamp = some s → r.identity = s.identity → ¬ m.foreign ∧ (r = s → ¬ m.stale)

/-- Every success of the run is allowed by the attempts before it. -/
def Allowed : Memory → List (Attempt Obj) → Prop
  | _, [] => True
  | m, a :: rest => (a.Stamps → m.Allows a.request) ∧ Allowed (m.after a) rest

/-- The directory is as the attempts say. -/
structure Describes (sha : Digest Bytes) (m : Memory) (d : Dir Obj) : Prop where
  stamp : d.stamp = m.stamp.map (·.inputs sha)
  objects : ∀ s, m.stamp = some s → (m.foreign ↔
    ∃ name built, d.outputs (.object name) = some built ∧ built.identity ≠ s.identity)
  payloads : ∀ s, m.stamp = some s → (m.stale ↔
    ∃ suffix built, d.outputs (.payload suffix) = some built ∧ ¬ SamePayload built s)

theorem inputs_eq {r s : Request} : r.inputs sha = s.inputs sha ↔ r = s := by
  constructor
  · intro h
    cases r
    cases s
    simp only [Request.inputs, Request.identity, Inputs.mk.injEq, Identity.mk.injEq,
      Digest.hash_eq, true_and] at h
    simp only [Request.mk.injEq]
    obtain ⟨⟨h₁, h₂, h₃, h₄⟩, h₅, h₆, h₇⟩ := h
    exact ⟨h₁, h₂, h₃, h₄, h₅, h₆, h₇⟩
  · rintro rfl
    rfl

theorem SamePayload.refl (r : Request) : SamePayload r r := ⟨rfl, rfl, rfl⟩

/-! ### What is kept -/

theorem kept_none {r : Request} {d : Dir Obj} (h : d.stamp = none) (o : Output Obj) :
    kept sha r d o = none := by
  simp [kept, h]

theorem kept_identity {r s : Request} {d : Dir Obj} (h : d.stamp = some (s.inputs sha))
    (hi : r.identity ≠ s.identity) (o : Output Obj) : kept sha r d o = none := by
  have hne : (s.inputs sha).identity ≠ r.identity := Ne.symm hi
  simp [kept, h, hne]

theorem kept_object {r s : Request} {d : Dir Obj} (h : d.stamp = some (s.inputs sha))
    (hi : r.identity = s.identity) (name : Obj) :
    kept sha r d (.object name) = d.outputs (.object name) := by
  have heq : (s.inputs sha).identity = r.identity := hi.symm
  simp only [kept, h, Option.map_some, heq, ne_eq, not_true_eq_false, if_false]
  split <;> rfl

theorem kept_payload {r s : Request} {d : Dir Obj} (h : d.stamp = some (s.inputs sha))
    (hi : r ≠ s) (suffix : Suffix) : kept sha r d (.payload suffix) = none := by
  have hne : s.inputs sha ≠ r.inputs sha := fun he => hi (inputs_eq.mp he).symm
  by_cases hid : (s.inputs sha).identity = r.identity <;> simp [kept, h, hid, hne]

theorem kept_same {s : Request} {d : Dir Obj} (h : d.stamp = some (s.inputs sha)) :
    kept sha s d = d.outputs := by
  have heq : (s.inputs sha).identity = s.identity := rfl
  simp [kept, h, heq]

/-! ### One attempt -/

theorem attempt_refused {d : Dir Obj} {a : Attempt Obj} (h : a.request.check ≠ .ok ()) :
    attempt sha d a = d := by
  simp only [attempt, prepare]
  cases hc : a.request.check with
  | error e => rfl
  | ok u => exact absurd hc h

theorem attempt_stamp {d : Dir Obj} {a : Attempt Obj} (h : a.request.check = .ok ()) :
    (attempt sha d a).stamp = if a.succeeds then some (a.request.inputs sha) else d.stamp := by
  simp only [attempt, prepare, h, opensbiMake]
  cases a.succeeds <;> rfl

theorem attempt_outputs {d : Dir Obj} {a : Attempt Obj} (h : a.request.check = .ok ())
    (o : Output Obj) : (attempt sha d a).outputs o =
      match kept sha a.request d o with
      | some built => some built
      | none => if a.succeeds || a.rebuilt o then some a.request else none := by
  simp only [attempt, prepare, h, opensbiMake]
  cases a.succeeds <;> rfl

theorem attempt_output_iff {d : Dir Obj} {a : Attempt Obj} (h : a.request.check = .ok ())
    {o : Output Obj} {built : Request} : (attempt sha d a).outputs o = some built ↔
      kept sha a.request d o = some built ∨
        kept sha a.request d o = none ∧ (a.succeeds || a.rebuilt o) = true ∧
          built = a.request := by
  rw [attempt_outputs h]
  cases kept sha a.request d o with
  | some b => simp
  | none => cases (a.succeeds || a.rebuilt o) <;> simp [eq_comm]

theorem describes_refused {m : Memory} {d : Dir Obj} {a : Attempt Obj}
    (h : a.request.check ≠ .ok ()) (hd : Describes sha m d) :
    Describes sha (m.after a) (attempt sha d a) := by
  have hafter : m.after a = m := by
    rw [Memory.after, if_neg fun hs => h hs.1]
    split
    · rename_i hc _
      exact absurd hc h
    · rfl
  rw [hafter, attempt_refused h]
  exact hd

theorem describes_failed {m : Memory} {d : Dir Obj} {a : Attempt Obj}
    (h : a.request.check = .ok ()) (hf : a.succeeds = false) (hd : Describes sha m d) :
    Describes sha (m.after a) (attempt sha d a) := by
  have hns : ¬ a.Stamps := fun hs => absurd (hs.2.symm.trans hf) (by decide)
  have hstamp : (attempt sha d a).stamp = d.stamp := by rw [attempt_stamp h, hf]; rfl
  cases hm : m.stamp with
  | none =>
    have hafter : m.after a = m := by
      rw [Memory.after, if_neg hns, hm]
      split
      · rename_i hs
        cases hs
      · rfl
    rw [hafter]
    exact { stamp := hstamp.trans hd.stamp, objects := by simp [hm], payloads := by simp [hm] }
  | some s =>
    have hds : d.stamp = some (s.inputs sha) := by rw [hd.stamp, hm]; rfl
    simp only [Memory.after, if_neg hns, h, hm]
    refine { stamp := hstamp.trans hds, objects := ?_, payloads := ?_ }
    · intro s' hs'
      cases hs'
      by_cases hid : a.request.identity = s.identity
      · simp only [if_pos hid, hd.objects s hm, attempt_output_iff h, kept_object hds hid]
        constructor
        · rintro ⟨name, built, hb, hne⟩
          exact ⟨name, built, .inl hb, hne⟩
        · rintro ⟨name, built, hb | ⟨_, _, rfl⟩, hne⟩
          · exact ⟨name, built, hb, hne⟩
          · exact absurd hid hne
      · simp only [if_neg hid, attempt_output_iff h, kept_identity hds hid, hf]
        constructor
        · rintro ⟨name, hb⟩
          exact ⟨name, a.request, .inr ⟨trivial, hb, rfl⟩, hid⟩
        · rintro ⟨name, built, hb | ⟨_, hb, _⟩, _⟩
          · cases hb
          · exact ⟨name, hb⟩
    · intro s' hs'
      cases hs'
      by_cases heq : a.request = s
      · simp only [hd.payloads s hm, attempt_output_iff h, heq, kept_same hds]
        constructor
        · rintro ⟨suffix, built, hb, hne⟩
          exact ⟨suffix, built, .inl hb, hne⟩
        · rintro ⟨suffix, built, hb | ⟨_, _, rfl⟩, hne⟩
          · exact ⟨suffix, built, hb, hne⟩
          · exact absurd (SamePayload.refl built) hne
      · simp only [if_neg heq, attempt_output_iff h, kept_payload hds heq, hf]
        constructor
        · rintro ⟨hne, suffix, hb⟩
          exact ⟨suffix, a.request, .inr ⟨trivial, hb, rfl⟩, hne⟩
        · rintro ⟨suffix, built, hb | ⟨_, hb, rfl⟩, hne⟩
          · cases hb
          · exact ⟨hne, suffix, hb⟩

/-- After a success everything exists, kept or built for the request. -/
theorem stamped_output {d : Dir Obj} {a : Attempt Obj} (h : a.Stamps) (o : Output Obj) :
    (attempt sha d a).outputs o = some ((kept sha a.request d o).getD a.request) := by
  rw [attempt_outputs h.1, h.2]
  cases kept sha a.request d o <;> rfl

/-- Under the stamp's identity: no kept object is foreign. -/
theorem objects_fresh_iff {m : Memory} {d : Dir Obj} {a : Attempt Obj} {s : Request} (h : a.Stamps)
    (hd : Describes sha m d) (hm : m.stamp = some s) (hid : a.request.identity = s.identity) :
    (∀ name, ∃ built, (attempt sha d a).outputs (.object name) = some built ∧
      built.identity = a.request.identity) ↔ ¬ m.foreign := by
  have hds : d.stamp = some (s.inputs sha) := by rw [hd.stamp, hm]; rfl
  rw [hd.objects s hm]
  constructor
  · rintro hfresh ⟨name, built, hb, hne⟩
    obtain ⟨built', hb', heq⟩ := hfresh name
    rw [stamped_output h, kept_object hds hid, hb] at hb'
    cases hb'
    exact hne (heq.trans hid)
  · intro hnone name
    rw [stamped_output h, kept_object hds hid]
    refine ⟨_, rfl, ?_⟩
    cases hb : d.outputs (.object name) with
    | none => rfl
    | some built =>
      apply Classical.byContradiction
      intro hne
      exact hnone ⟨name, built, hb, fun he => hne (he.trans hid.symm)⟩

/-- With the stamp's inputs: no kept part of `fw_payload` is stale. -/
theorem payloads_fresh_iff {m : Memory} {d : Dir Obj} {a : Attempt Obj} {s : Request} (h : a.Stamps)
    (hd : Describes sha m d) (hm : m.stamp = some s) :
    (∀ suffix, ∃ built, (attempt sha d a).outputs (.payload suffix) = some built ∧
      SamePayload built a.request) ↔ (a.request = s → ¬ m.stale) := by
  have hds : d.stamp = some (s.inputs sha) := by rw [hd.stamp, hm]; rfl
  by_cases heq : a.request = s
  · rw [hd.payloads s hm]
    constructor
    · rintro hfresh _ ⟨suffix, built, hb, hne⟩
      obtain ⟨built', hb', hsame⟩ := hfresh suffix
      rw [stamped_output h, heq, kept_same hds, hb] at hb'
      cases hb'
      exact hne (heq ▸ hsame)
    · intro hnone suffix
      rw [stamped_output h, heq, kept_same hds]
      refine ⟨_, rfl, ?_⟩
      cases hb : d.outputs (.payload suffix) with
      | none => exact .refl _
      | some built =>
        apply Classical.byContradiction
        intro hne
        exact hnone heq ⟨suffix, built, hb, hne⟩
  · refine iff_of_true (fun suffix => ?_) fun he => absurd he heq
    rw [stamped_output h, kept_payload hds heq]
    exact ⟨_, rfl, .refl _⟩

theorem fresh_iff_allows {m : Memory} {d : Dir Obj} {a : Attempt Obj} (h : a.Stamps)
    (hd : Describes sha m d) :
    Fresh (attempt sha d a) a.request ↔ m.Allows a.request := by
  have hall : (∀ o, kept sha a.request d o = none) → Fresh (attempt sha d a) a.request :=
    fun hk => ⟨fun name => ⟨_, by rw [stamped_output h, hk]; rfl, rfl⟩,
      fun suffix => ⟨_, by rw [stamped_output h, hk]; rfl, .refl _⟩⟩
  cases hm : m.stamp with
  | none =>
    have hfresh := hall (kept_none (by rw [hd.stamp, hm]; rfl))
    simp [Memory.Allows, hm, hfresh]
  | some s =>
    by_cases hid : a.request.identity = s.identity
    · have hobjects := objects_fresh_iff h hd hm hid
      have hpayloads := payloads_fresh_iff h hd hm
      constructor
      · rintro hfresh s' hs' -
        rw [hm] at hs'
        cases hs'
        exact ⟨hobjects.mp hfresh.objects, hpayloads.mp hfresh.payloads⟩
      · intro hallows
        obtain ⟨hf, hs⟩ := hallows s hm hid
        exact ⟨hobjects.mpr hf, hpayloads.mpr hs⟩
    · have hds : d.stamp = some (s.inputs sha) := by rw [hd.stamp, hm]; rfl
      apply iff_of_true (hall (kept_identity hds hid))
      intro s' hs' hid'
      rw [hm] at hs'
      cases hs'
      exact absurd hid' hid

theorem describes_succeeded {m : Memory} {d : Dir Obj} {a : Attempt Obj} (h : a.Stamps)
    (hfresh : Fresh (attempt sha d a) a.request) :
    Describes sha (m.after a) (attempt sha d a) := by
  rw [Memory.after, if_pos h]
  refine { stamp := ?_, objects := ?_, payloads := ?_ }
  · rw [attempt_stamp h.1, h.2]
    rfl
  · rintro s ⟨⟩
    constructor
    · exact False.elim
    · rintro ⟨name, built, hb, hne⟩
      obtain ⟨built', hb', heq⟩ := hfresh.objects name
      rw [hb] at hb'
      cases hb'
      exact hne heq
  · rintro s ⟨⟩
    constructor
    · exact False.elim
    · rintro ⟨suffix, built, hb, hne⟩
      obtain ⟨built', hb', hsame⟩ := hfresh.payloads suffix
      rw [hb] at hb'
      cases hb'
      exact hne hsame

theorem allFresh_iff {m : Memory} {d : Dir Obj} {attempts : List (Attempt Obj)}
    (hd : Describes sha m d) : AllFresh sha d attempts ↔ Allowed m attempts := by
  induction attempts generalizing m d with
  | nil => exact Iff.rfl
  | cons a rest ih =>
    simp only [AllFresh, Allowed]
    by_cases hs : a.Stamps
    · constructor
      · rintro ⟨hfresh, hrest⟩
        exact ⟨fun _ => (fresh_iff_allows hs hd).mp (hfresh hs),
          (ih (describes_succeeded hs (hfresh hs))).mp hrest⟩
      · rintro ⟨hallows, hrest⟩
        have hfresh := (fresh_iff_allows hs hd).mpr (hallows hs)
        exact ⟨fun _ => hfresh, (ih (describes_succeeded hs hfresh)).mpr hrest⟩
    · have hnext : Describes sha (m.after a) (attempt sha d a) := by
        by_cases hc : a.request.check = .ok ()
        · exact describes_failed hc (by simpa [Attempt.Stamps, hc] using hs) hd
        · exact describes_refused hc hd
      simp only [hs, false_implies, true_and]
      exact ih hnext

/-- A directory without a stamp, whatever other builds left in it. -/
def Dir.unstamped (outputs : Output Obj → Option Request) : Dir Obj := ⟨none, none, outputs⟩

theorem describes_start (outputs : Output Obj → Option Request) :
    Describes sha .start (.unstamped outputs) :=
  { stamp := rfl, objects := by rintro s ⟨⟩, payloads := by rintro s ⟨⟩ }

end

/-- Over any run: each success leaves only outputs of its own inputs, exactly
when the failed attempts since the stamp left nothing it would keep. -/
theorem opensbi_outputs_match_stamp_iff {Obj : Type} (sha : Digest Bytes)
    (outputs : Output Obj → Option Request) (attempts : List (Attempt Obj)) :
    AllFresh sha (.unstamped outputs) attempts ↔ Allowed .start attempts :=
  allFresh_iff (describes_start outputs)

/-- The first 64 bytes of a kernel of one page. -/
def smallImage : Bytes :=
  List.replicate 10 0 ++ [0x20, 0, 0, 0, 0, 0] ++ [0, 0x10] ++ List.replicate 30 0 ++
    ascii "RISCV" ++ List.replicate 11 0

def requestWith (isa : String) : Request where
  bits := .rv64
  isa := isa
  compiler := "/usr/bin/riscv64-linux-gnu-gcc"
  compilerVersion := "riscv64-linux-gnu-gcc 13"
  kernel := "/linux/arch/riscv/boot/Image"
  image := smallImage
  fdtOffset := 0x3f00000

/-- One object of another ISA is rebuilt before the make fails. -/
def interruptedRun : List (Attempt Unit) :=
  [⟨requestWith "rv64imac", fun _ => false, true⟩,
   ⟨requestWith "rv64gc", fun | .object _ => true | .payload _ => false, false⟩,
   ⟨requestWith "rv64imac", fun _ => false, true⟩]

theorem opensbi_keeps_a_foreign_object :
    ¬ ∀ (sha : Digest Bytes) (outputs : Output Unit → Option Request) (attempts : List (Attempt Unit)),
      AllFresh sha (.unstamped outputs) attempts := by
  intro h
  obtain ⟨_, _, hlast, _⟩ := h (.verbatim _ Digest.bytes_injective) (fun _ => none)
    interruptedRun
  obtain ⟨built, hb, heq⟩ := (hlast ⟨rfl, rfl⟩).objects ()
  have hforeign : some built = some (requestWith "rv64gc") := hb.symm.trans rfl
  rw [Option.some.inj hforeign] at heq
  exact absurd heq (by decide)

end LinuxBuild.OpenSbi
