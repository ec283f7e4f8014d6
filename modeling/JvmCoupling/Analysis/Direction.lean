import JvmCoupling.Text.Blank
import JvmCoupling.Text.Case
import JvmCoupling.Text.Quoted

/-! # Direction of call coupling

A call couples its caller and the class it calls.  The direction says which of the two owns the record.
-/

namespace JvmCoupling

/-- Which side of a call owns the coupling record. -/
inductive Direction where
  | caller
  | callee
  | both
  /-- A number that stands for no direction; it analyses like `caller`. -/
  | unknown
deriving DecidableEq, Repr, Inhabited

namespace Direction

/-- The direction with a number. -/
def ofCode (code : Int) : Direction :=
  if code = 0 then caller else if code = 1 then callee else if code = 2 then both else unknown

/-- The number of a direction. -/
def code : Direction → Int
  | caller => 0
  | callee => 1
  | both => 2
  | unknown => -1

/-- The name of a direction. -/
def name : Direction → String
  | caller => "caller"
  | callee => "callee"
  | both => "both"
  | unknown => "unknown"

/-- A text that names no direction. -/
structure ParseError where
  text : Bytes
deriving DecidableEq, Repr, Inhabited

/-- The wording of the error. -/
def ParseError.message (e : ParseError) : Bytes :=
  utf8 "unknown call direction " ++ Text.quoted e.text ++ utf8 " (want caller, callee or both)"

/-- The direction that a text names, in any letter case and with blanks around it; an empty text means
the caller. -/
def parse (text : Bytes) : Except ParseError Direction :=
  let word := Text.lower (Text.trim text)
  if word = [] ∨ word = utf8 "caller" then .ok caller
  else if word = utf8 "callee" then .ok callee
  else if word = utf8 "both" then .ok both
  else .error ⟨text⟩

/-- The pairs of owner and coupled class that a call gives rise to. -/
def pairs (d : Direction) (caller callee : Bytes) : List (Bytes × Bytes) :=
  match d with
  | .callee => [(callee, caller)]
  | .both => [(caller, callee), (callee, caller)]
  | .caller | .unknown => [(caller, callee)]

end Direction

end JvmCoupling
