import JvmCoupling.Bytes

/-! # Compiled classes

The structural view of a compiled class: its name and relatives, and for every method the calls in its
body.  Class names are dotted and fully qualified.

* `CallSite` — one invocation;
* `Method` — a declared method with its call sites in code order;
* `ClassInfo` — a class or interface.
-/

namespace JvmCoupling

/-- One invocation.  The owner is empty when the called class is not known statically, as for dynamic
call sites and methods of arrays. -/
structure CallSite where
  owner : Bytes
  method : Bytes
deriving DecidableEq, Repr, Inhabited

/-- The called class is known. -/
def CallSite.isResolved (s : CallSite) : Bool := s.owner ≠ []

/-- A declared method: its name, its descriptor and its calls in code order. -/
structure Method where
  name : Bytes
  descriptor : Bytes
  calls : List CallSite
deriving DecidableEq, Repr, Inhabited

/-- Name and descriptor, which together are unique within a class. -/
def Method.signature (m : Method) : Bytes := m.name ++ m.descriptor

/-- A class or interface.  The superclass is empty for a class that has none. -/
structure ClassInfo where
  name : Bytes
  superclass : Bytes
  interfaces : List Bytes
  isInterface : Bool
  methods : List Method
deriving DecidableEq, Repr, Inhabited

/-- The direct superclass, if there is one, and the direct interfaces. -/
def ClassInfo.ancestors (c : ClassInfo) : List Bytes :=
  if c.superclass = [] then c.interfaces else c.superclass :: c.interfaces

/-- The dotted form of a slash separated class name. -/
def dotted (name : Bytes) : Bytes :=
  name.map fun b => if b = Bytes.slash then Bytes.dot else b

end JvmCoupling
