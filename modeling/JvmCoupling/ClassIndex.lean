import JvmCoupling.Bytes

/-! # Class numbers

Small numbers for class names, handed out in the order in which the names are first seen.

* `ClassIndex.find?`, `ClassIndex.nameOf` — from a name to its number and back;
* `ClassIndex.intern`, `ClassIndex.internAll` — numbers for one name and for a list of names.
-/

namespace JvmCoupling

/-- The names seen so far; the number of a name is its position. -/
structure ClassIndex where
  names : List Bytes
  nodup : names.Nodup
deriving DecidableEq, Repr

namespace ClassIndex

/-- No name was seen yet. -/
def empty : ClassIndex := ⟨[], .nil⟩

instance : Inhabited ClassIndex := ⟨empty⟩

/-- The number of a name that was seen before. -/
def find? (x : ClassIndex) (name : Bytes) : Option Nat := x.names.idxOf? name

theorem nodup_concat {x : ClassIndex} {name : Bytes} (fresh : x.find? name = none) : (x.names ++ [name]).Nodup := by
  have absent : name ∉ x.names := List.idxOf?_eq_none_iff.1 fresh
  refine List.pairwise_append.2 ⟨x.nodup, List.pairwise_singleton _ _, ?_⟩
  intro a member b last
  obtain rfl := List.mem_singleton.1 last
  rintro rfl
  exact absent member

/-- The number of a name, which is a new one if the name was not seen before. -/
def intern (x : ClassIndex) (name : Bytes) : Nat × ClassIndex :=
  match fresh : x.find? name with
  | some id => (id, x)
  | none => (x.names.length, ⟨x.names ++ [name], nodup_concat fresh⟩)

/-- The numbers of the names of a list, in order. -/
def internAll (x : ClassIndex) : List Bytes → List Nat × ClassIndex
  | [] => ([], x)
  | name :: names =>
    let (id, x) := x.intern name
    let (ids, x) := x.internAll names
    (id :: ids, x)

/-- The name with a number. -/
def name? (x : ClassIndex) (id : Nat) : Option Bytes := x.names[id]?

/-- The name with a number that was handed out. -/
def nameOf (x : ClassIndex) (id : Nat) : Bytes := (x.name? id).getD []

/-- How many names were seen. -/
def size (x : ClassIndex) : Nat := x.names.length

end ClassIndex

end JvmCoupling
