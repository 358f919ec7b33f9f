import Mathlib.Data.Rat.Defs
import LinuxBuild.Kconfig

/-!
# TOML documents

What `tomllib.loads` gives. `repr` is how Python shows the values that are not
strings, integers or booleans.
-/

namespace LinuxBuild.Toml

inductive Real where
  | finite (q : Rat)
  | infinite (negative : Bool)
  | nan

inductive Value where
  | string (s : Text)
  | integer (n : Int)
  | float (x : Real)
  | boolean (b : Bool)
  | moment (written : Text)
  | array (items : List Value)
  | table (rows : List (Text × Value))

namespace Value

/-- `v[key]` with a string key. -/
def item? (v : Value) (key : Text) : Option Value :=
  match v with
  | .table rows => rows.lookup key
  | _ => none

def string? : Value → Option Text
  | .string s => some s
  | _ => none

def isText (v : Value) (s : Text) : Bool :=
  match v with
  | .string t => t == s
  | _ => false

/-- `v == n` of an integer `n`. -/
def isInt (v : Value) (n : Int) : Bool :=
  match v with
  | .integer m => m == n
  | .boolean b => n == if b then 1 else 0
  | .float (.finite q) => q == n
  | _ => false

/-- `bool(v)`. -/
def truth : Value → Bool
  | .string s => !s.isEmpty
  | .integer n => n != 0
  | .float (.finite q) => q != 0
  | .float _ => true
  | .boolean b => b
  | .moment _ => true
  | .array items => !items.isEmpty
  | .table rows => !rows.isEmpty

/-- `str(v)`. -/
def str (repr : Value → Text) : Value → Text
  | .string s => s
  | .integer n => Kconfig.intText n
  | .boolean true => text "True"
  | .boolean false => text "False"
  | v => repr v

theorem string?_eq {v : Value} {s : Text} (h : v.string? = some s) : v = .string s := by
  cases v with
  | string t => rw [Option.some.inj h]
  | integer | float | boolean | moment | array | table => cases h

theorem isText_eq {v : Value} {s : Text} (h : v.isText s = true) : v = .string s := by
  cases v with
  | string t => rw [beq_iff_eq.mp h]
  | integer | float | boolean | moment | array | table => cases h

end Value

/-- `deep_get`. -/
def deepGet (default : Value) : Value → List Text → Value
  | d, [] => d
  | .table rows, k :: keys => deepGet default ((rows.lookup k).getD default) keys
  | _, _ :: _ => default

/-- With a default that is no table, a missing table and a missing key give the
same. -/
theorem deepGet_pair {default : Value} (h : ∀ rows, default ≠ .table rows) (d : Value)
    (k key : Text) :
    deepGet default d [k, key] = ((d.item? k).bind fun inner => inner.item? key).getD default := by
  have hdefault : deepGet default default [key] = default := by
    cases default with
    | table rows => exact absurd rfl (h rows)
    | string | integer | float | boolean | moment | array => rfl
  cases d with
  | table rows =>
    cases hrow : rows.lookup k with
    | none => simp [deepGet, Value.item?, hrow, hdefault]
    | some inner => cases inner <;> simp [deepGet, Value.item?, hrow]
  | string | integer | float | boolean | moment | array => rfl

end LinuxBuild.Toml
