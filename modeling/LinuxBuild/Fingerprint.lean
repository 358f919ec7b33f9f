import LinuxBuild.Provision

/-!
# What the fingerprint of a disk tells apart

`build` hashes the preset, the builder and the names and contents of the runtime
files one after another. A reader of the bytes cannot see where one ends and the
next begins.
-/

namespace LinuxBuild

theorem flatMap_utf8_injective :
    Function.Injective fun t : Text => t.flatMap String.utf8EncodeChar := by
  intro s t h
  induction s generalizing t with
  | nil =>
    cases t with
    | nil => rfl
    | cons c t =>
      have hnil := List.append_eq_nil_iff.mp (h.symm : String.utf8EncodeChar c ++ _ = [])
      exact absurd hnil.1 String.utf8EncodeChar_ne_nil
  | cons b s ih =>
    cases t with
    | nil =>
      have hnil := List.append_eq_nil_iff.mp (h : String.utf8EncodeChar b ++ _ = [])
      exact absurd hnil.1 String.utf8EncodeChar_ne_nil
    | cons c t =>
      simp only [List.flatMap_cons] at h
      have hfirst : ∀ (d : Char) (rest : Bytes),
          (String.utf8EncodeChar d ++ rest).toByteArray.utf8DecodeChar? 0 = some d := by
        intro d rest
        rw [List.toByteArray_append]
        exact ByteArray.utf8DecodeChar?_utf8EncodeChar_append
      have hb := hfirst b (s.flatMap String.utf8EncodeChar)
      rw [h, hfirst] at hb
      obtain rfl := Option.some.inj hb
      rw [ih (List.append_cancel_left h)]

/-- Lists of the same lengths one after another. -/
theorem eq_of_flatten_eq {α : Type} {a b : List (List α)}
    (hlength : a.map List.length = b.map List.length) (h : a.flatten = b.flatten) : a = b := by
  induction a generalizing b with
  | nil => exact (List.map_eq_nil_iff.mp hlength.symm).symm
  | cons x a ih =>
    cases b with
    | nil => cases hlength
    | cons y b =>
      obtain ⟨hxy, hrest⟩ := List.cons.inj hlength
      obtain ⟨hhead, htail⟩ := List.append_inj h hxy
      rw [hhead, ih hrest htail]

namespace Distro

open Repository

/-- What `build` reads for the fingerprint; the runtime files in their order. -/
structure Inputs where
  preset : Bytes
  builder : Bytes
  runtime : List (Text × Bytes)
  deriving DecidableEq

def inputs (t : Tree) (preset : Path) : Option Inputs := do
  let runtime ← (sorted (← t.iterdir rootfsDistro)).mapM fun p => do
    return (fileName p, ← t.file? p)
  return ⟨← t.file? preset, ← t.file? (script "build-distro.py"), runtime⟩

namespace Inputs

/-- Everything that is hashed, piece by piece. -/
def pieces (x : Inputs) : List Bytes :=
  x.preset :: x.builder :: x.runtime.flatMap fun file => [file.1.flatMap String.utf8EncodeChar, file.2]

/-- The length of every piece. -/
def shape (x : Inputs) : List Nat := x.pieces.map List.length

theorem runtime_injective {a b : List (Text × Bytes)}
    (h : (a.flatMap fun file => [file.1.flatMap String.utf8EncodeChar, file.2]) =
      b.flatMap fun file => [file.1.flatMap String.utf8EncodeChar, file.2]) : a = b := by
  induction a generalizing b with
  | nil =>
    cases b with
    | nil => rfl
    | cons y b => cases h
  | cons x a ih =>
    cases b with
    | nil => cases h
    | cons y b =>
      simp only [List.flatMap_cons, List.cons_append, List.nil_append, List.cons.injEq] at h
      obtain ⟨hname, hcontent, h⟩ := h
      rw [ih h, Prod.ext (flatMap_utf8_injective hname) hcontent]

theorem pieces_injective : Function.Injective pieces := by
  rintro ⟨p, b, r⟩ ⟨p', b', r'⟩ h
  simp only [pieces, List.cons.injEq] at h
  obtain ⟨rfl, rfl, h⟩ := h
  rw [runtime_injective h]

/-- The same bytes are the same inputs exactly when every piece is as long. -/
theorem eq_iff_shape {x y : Inputs} (h : x.pieces.flatten = y.pieces.flatten) :
    x = y ↔ x.shape = y.shape := by
  constructor
  · rintro rfl
    rfl
  · intro hshape
    exact pieces_injective (eq_of_flatten_eq hshape h)

theorem pieces_flatten (x : Inputs) :
    x.pieces.flatten = x.preset ++ x.builder ++ (x.runtime.map fun file =>
      file.1.flatMap String.utf8EncodeChar ++ file.2).flatten := by
  have hruntime : ∀ runtime : List (Text × Bytes),
      (runtime.flatMap fun file => [file.1.flatMap String.utf8EncodeChar, file.2]).flatten =
        (runtime.map fun file => file.1.flatMap String.utf8EncodeChar ++ file.2).flatten := by
    intro runtime
    induction runtime with
    | nil => rfl
    | cons file runtime ih => simp [ih]
  simp [pieces, hruntime]

/-- The last byte of the preset may as well be the first one of the builder. -/
theorem bytes_shared {x : Inputs} {front : Bytes} {last : UInt8} (h : x.preset = front ++ [last]) :
    ∃ y, y ≠ x ∧ y.pieces.flatten = x.pieces.flatten := by
  refine ⟨{ x with preset := front, builder := last :: x.builder }, ?_, ?_⟩
  · intro heq
    have := congrArg List.length ((congrArg preset heq).trans h)
    simp at this
  · simp [pieces_flatten, h]

end Inputs

theorem mapM_runtime (t : Tree) (files : List Path) :
    (files.mapM fun p => do
      return (fileName p).flatMap String.utf8EncodeChar ++ (← t.file? p) : Option (List Bytes)) =
    (files.mapM fun p => do return (fileName p, ← t.file? p) : Option (List (Text × Bytes))).map
      (List.map fun file => file.1.flatMap String.utf8EncodeChar ++ file.2) := by
  induction files with
  | nil => rfl
  | cons p files ih =>
    rw [List.mapM_cons, List.mapM_cons, ih]
    cases t.file? p with
    | none => rfl
    | some content =>
      cases files.mapM fun p => do return (fileName p, ← t.file? p) with
      | none => rfl
      | some rest => rfl

/-- The digest is one of the bytes of all pieces. -/
theorem fingerprint_eq (sha : Digest Bytes) (t : Tree) (preset : Path) :
    fingerprint sha t preset = (inputs t preset).map fun x => sha.hash x.pieces.flatten := by
  simp only [fingerprint, runtimeBytes, inputs, mapM_runtime]
  cases t.iterdir rootfsDistro with
  | none =>
    cases t.file? preset with
    | none => rfl
    | some content => cases t.file? (script "build-distro.py") <;> rfl
  | some files =>
    simp only [bind, Option.bind_some]
    generalize (sorted files).mapM (fun p => do
      return (fileName p, ← t.file? p) : Path → Option (Text × Bytes)) = runtime
    cases runtime with
    | none =>
      cases t.file? preset with
      | none => rfl
      | some content => cases t.file? (script "build-distro.py") <;> rfl
    | some runtime =>
      cases t.file? preset with
      | none => rfl
      | some content =>
        cases t.file? (script "build-distro.py") with
        | none => rfl
        | some builder =>
          simp [Inputs.pieces_flatten]

/-- Two digests are equal for different inputs exactly when one text of bytes is
cut into the pieces of both at different places. -/
theorem fingerprint_tells_apart_iff (sha : Digest Bytes) {t u : Tree} {preset other : Path}
    {x y : Inputs} (hx : inputs t preset = some x) (hy : inputs u other = some y) :
    (fingerprint sha t preset = fingerprint sha u other → x = y) ↔
      (x.pieces.flatten = y.pieces.flatten → x.shape = y.shape) := by
  have hdigest : fingerprint sha t preset = fingerprint sha u other ↔
      x.pieces.flatten = y.pieces.flatten := by
    rw [fingerprint_eq, fingerprint_eq, hx, hy, Option.map_some, Option.map_some,
      Option.some.injEq, Digest.hash_eq]
  rw [hdigest]
  constructor
  · intro h heq
    exact (Inputs.eq_iff_shape heq).mp (h heq)
  · intro h heq
    exact (Inputs.eq_iff_shape heq).mpr (h heq)

/-- A repository with one runtime file. -/
def oneRuntime (name content : String) : Tree :=
  [(rootfsDistro, .dir), (configs ++ [text "alpine.toml"], .file (ascii "[rootfs]\n")),
   (script "build-distro.py", .file (ascii "import json\n")),
   (rootfsDistro ++ [text name], .file (ascii content))]

def oneInputs (name content : String) : Inputs :=
  ⟨ascii "[rootfs]\n", ascii "import json\n", [(text name, ascii content)]⟩

def plainDigest : Digest Bytes := .verbatim _ Digest.bytes_injective

theorem fingerprint_tells_apart_iff_renamed :
    (fingerprint plainDigest (oneRuntime "a" "b") (configs ++ [text "alpine.toml"]) =
        fingerprint plainDigest (oneRuntime "c" "b") (configs ++ [text "alpine.toml"]) →
      oneInputs "a" "b" = oneInputs "c" "b") ↔
    ((oneInputs "a" "b").pieces.flatten = (oneInputs "c" "b").pieces.flatten →
      (oneInputs "a" "b").shape = (oneInputs "c" "b").shape) :=
  fingerprint_tells_apart_iff plainDigest (by decide +kernel) (by decide +kernel)

/-- A byte goes from the content of a runtime file to its name. -/
theorem fingerprint_shared :
    inputs (oneRuntime "a" "b") (configs ++ [text "alpine.toml"]) = some (oneInputs "a" "b") ∧
      inputs (oneRuntime "ab" "") (configs ++ [text "alpine.toml"]) = some (oneInputs "ab" "") ∧
      oneInputs "a" "b" ≠ oneInputs "ab" "" ∧
      fingerprint plainDigest (oneRuntime "a" "b") (configs ++ [text "alpine.toml"]) =
        fingerprint plainDigest (oneRuntime "ab" "") (configs ++ [text "alpine.toml"]) := by
  decide +kernel

end Distro

end LinuxBuild
