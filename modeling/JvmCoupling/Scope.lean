import JvmCoupling.Bytes

/-! # Scope

Which classes take part in an analysis: those whose name starts with the project's package prefix, and the
target class if the analysis is narrowed to one.
-/

namespace JvmCoupling

/-- A package prefix and a target class, which is empty when the whole project is analysed. -/
structure Scope where
  packagePrefix : Bytes := []
  target : Bytes := []
deriving DecidableEq, Repr, Inhabited

namespace Scope

/-- The analysis is narrowed to one class. -/
def hasTarget (s : Scope) : Bool := s.target ≠ []

/-- A class that takes part. -/
def includes (s : Scope) (name : Bytes) : Bool :=
  (s.hasTarget && name = s.target) || s.packagePrefix.isPrefixOf name

/-- A pair of classes one of which is the target. -/
def touchesTarget (s : Scope) (a b : Bytes) : Bool := a = s.target || b = s.target

/-- A relation between two classes that an analysis in this scope keeps: in target mode it has to touch
the target. -/
def keeps (s : Scope) (a b : Bytes) : Bool := !s.hasTarget || s.touchesTarget a b

end Scope

end JvmCoupling
