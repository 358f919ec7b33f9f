/-!
# Content digests

SHA-256 and MD5 are taken as injective: two contents with one digest are one
content. The text of a digest is never empty.
-/

namespace LinuxBuild

abbrev Hash := List Nat

structure Digest (α : Type) where
  hash : α → Hash
  injective : Function.Injective hash
  nonempty : ∀ a, hash a ≠ []

namespace Digest

theorem hash_eq {α : Type} {d : Digest α} {a b : α} : d.hash a = d.hash b ↔ a = b :=
  ⟨fun h => d.injective h, congrArg d.hash⟩

/-- A content as its own digest, for runs on concrete inputs. -/
def verbatim {α : Type} (f : α → List Nat) (hf : Function.Injective f) : Digest α where
  hash a := 0 :: f a
  injective _ _ h := hf (List.cons.inj h).2
  nonempty _ := List.cons_ne_nil _ _

theorem bytes_injective : Function.Injective (List.map UInt8.toNat) :=
  fun _ _ h => (List.map_inj_right fun _ _ hxy => UInt8.toNat_inj.mp hxy).mp h

theorem chars_injective : Function.Injective (List.map Char.toNat) :=
  fun _ _ h => (List.map_inj_right fun _ _ hxy => Char.toNat_inj.mp hxy).mp h

end Digest

end LinuxBuild
