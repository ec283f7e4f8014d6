import JvmCoupling.Bytes

/-! # Report tables

A report database holds tables of coupling rows.  Only the rows matter to this library, so a database is
its tables.
-/

namespace JvmCoupling

/-- A row of a report table: its position, a class, and the coupled class and the number of calls where
they apply. -/
structure TableRow where
  position : Nat
  owner : Bytes
  coupled : Option Bytes
  calls : Option Int
deriving DecidableEq, Repr, Inhabited

/-- Tables by name. -/
structure Database where
  tables : List (String × List TableRow) := []
deriving DecidableEq, Repr, Inhabited

/-- The rows of a table. -/
def Database.rows? (db : Database) (table : String) : Option (List TableRow) := db.tables.lookup table

/-- The database with a table replaced, or added if there was none of its name. -/
def Database.replace (db : Database) (table : String) (rows : List TableRow) : Database :=
  ⟨db.tables.filter (·.1 ≠ table) ++ [(table, rows)]⟩

end JvmCoupling
