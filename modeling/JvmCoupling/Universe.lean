import JvmCoupling.Model

/-! # The class universe

All classes known to an analysis, in load order and keyed by name.  A later class of a name that is taken
is shadowed, as on a class path; a class without a name is not kept.

* `Universe.find?` — the class of a name;
* `Universe.add` — with one more class, if it is accepted;
* `Universe.ofList` — the classes of a list in order.
-/

namespace JvmCoupling

/-- Classes in load order. -/
structure Universe where
  classes : List ClassInfo := []
deriving DecidableEq, Repr, Inhabited

namespace Universe

/-- The class of a name. -/
def find? (u : Universe) (name : Bytes) : Option ClassInfo :=
  u.classes.find? (·.name = name)

/-- A class of this name is present. -/
def contains (u : Universe) (name : Bytes) : Bool := (u.find? name).isSome

/-- The names in load order. -/
def names (u : Universe) : List Bytes := u.classes.map (·.name)

/-- The number of classes. -/
def size (u : Universe) : Nat := u.classes.length

/-- A class is kept if there is one, it has a name, and the name is still free. -/
def accepts (u : Universe) : Option ClassInfo → Bool
  | none => false
  | some c => c.name ≠ [] && !u.contains c.name

/-- The universe with one more class, if it accepts it. -/
def add (u : Universe) (class? : Option ClassInfo) : Universe :=
  match class? with
  | none => u
  | some c => if u.accepts (some c) then ⟨u.classes ++ [c]⟩ else u

/-- The universe of the given classes, in order. -/
def ofList (classes : List (Option ClassInfo)) : Universe := classes.foldl add {}

end Universe

end JvmCoupling
