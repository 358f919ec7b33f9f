/-!
# Buffers with checked access

A buffer is the list of its cells. An access outside of it is a fault, `none`.
-/

namespace LinuxBuild.Buffer

variable {α : Type}

def load (cells : List α) (i : Nat) : Option α := cells[i]?

def store (cells : List α) (i : Nat) (a : α) : Option (List α) :=
  if i < cells.length then some (cells.set i a) else none

/-- The cell behind a known front. -/
theorem load_at (front : List α) (a : α) (back : List α) {i : Nat} (hi : i = front.length) :
    load (front ++ a :: back) i = some a := by
  subst hi
  simp [load]

theorem store_at (front : List α) (a b : α) (back : List α) {i : Nat} (hi : i = front.length) :
    store (front ++ a :: back) i b = some (front ++ b :: back) := by
  subst hi
  simp [store]

end LinuxBuild.Buffer
