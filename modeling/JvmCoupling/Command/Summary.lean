import JvmCoupling.Session
import JvmCoupling.Settings.Config
import JvmCoupling.Text.Width

/-! # Summary of a run

* `styled` — a text as it stands on a screen;
* `summary` — what a run that went well prints.
-/

namespace JvmCoupling.Command

/-- Tabs become four spaces, and a carriage return in front of a line feed is dropped. -/
def plain : Bytes → Bytes
  | [] => []
  | 0x0D :: 0x0A :: rest => 0x0A :: plain rest
  | 0x09 :: rest => utf8 "    " ++ plain rest
  | b :: rest => b :: plain rest

/-- A text as a block: every line of it is filled with spaces to the width of the widest. -/
def styled (s : Bytes) : Bytes :=
  let lines := (plain s).splitOn Bytes.lineFeed
  let widest := (lines.map Text.width).foldl max 0
  [Bytes.lineFeed].intercalate (lines.map fun line =>
    line ++ List.replicate (widest - Text.width line) Bytes.space)

/-- A line of text about numbers. -/
def phrase (parts : List (Nat × String)) : Bytes := parts.flatMap fun (n, s) => Text.decimal n ++ utf8 s

/-- The paragraphs of a summary. -/
def summaryLines (c : Settings.Config) (s : Session) : List Bytes :=
  let scope := if c.hasTarget then utf8 "target " ++ c.target else utf8 "project"
  let loaded := (s.universe?.map Universe.size).getD 0
  [utf8 "Coupling analysis complete",
    utf8 "Scope: prefix " ++ Text.quoted c.packagePrefix ++ utf8 ", " ++ scope,
    utf8 "   " ++ phrase [(loaded, " classes loaded, "), (s.calls.stats.classes, " in scope")],
    utf8 "   " ++ phrase [(s.calls.records.length, " call records ("), (s.calls.stats.edges, " edges, "),
        (s.calls.stats.unresolved, " unresolved call sites, direction ")]
      ++ utf8 c.direction.name ++ utf8 ")",
    utf8 "   " ++ phrase [(s.hierarchy.records.length, " hierarchy records in "),
      (s.hierarchy.trees.length, " trees ("), (s.hierarchy.stats.missingAncestors, " missing ancestors)")],
    utf8 "Reports: " ++ c.folder]

/-- What a run that went well prints. -/
def summary (c : Settings.Config) (s : Session) : Bytes :=
  (summaryLines c s).flatMap fun line => styled line ++ utf8 "\n"

end JvmCoupling.Command
