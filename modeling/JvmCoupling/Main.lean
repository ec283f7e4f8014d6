import JvmCoupling.Command.Run

/-! # Command line

Takes the working directory as it is, runs the program on it, and writes what the run prints and the reports
that it changed.  Databases stay in memory and no server is connected to: asking for either ends with an
error.
-/

namespace JvmCoupling.Command

/-- The bytes as text, if they are text. -/
def asString? (s : Bytes) : Option String := String.fromUTF8? ⟨s.toArray⟩

/-- What is below a directory, for at most so many levels.  What cannot be read is left out. -/
def snapshot (path : Bytes) (entries : Array IO.FS.DirEntry) : Nat → IO (List (Bytes × Item))
  | 0 => return []
  | depth + 1 => do
    let mut found : List (Bytes × Item) := []
    for entry in entries do
      let name := if path = [] then utf8 entry.fileName else path ++ utf8 "/" ++ utf8 entry.fileName
      try
        if ← entry.path.isDir then
          let below ← snapshot name (← entry.path.readDir) depth
          found := found ++ (name, .directory) :: below
        else
          let content ← IO.FS.readBinFile entry.path
          found := found ++ [(name, .file (.bytes content.toList))]
      catch _ => pure ()
    return found

/-- The variables that matter to the program. -/
def environment : IO (List (Bytes × Bytes)) := do
  let mut found : List (Bytes × Bytes) := []
  for name in Settings.variableNames do
    if let some key := asString? name then
      if let some value ← IO.getEnv key then
        found := found ++ [(name, utf8 value)]
    else pure ()
  return found

/-- A server that nothing can be sent to. -/
def noServer : Graph.Server where
  connection := .error (utf8 "no connection")

/-- Writes one report; the result tells whether it could be written. -/
def writeReport (path : Bytes) (content : Content) : IO Bool := do
  match asString? path, asString? (Path.directory path), content with
  | some path, some directory, .bytes s =>
    IO.FS.createDirAll directory
    IO.FS.writeBinFile path ⟨s.toArray⟩
    return true
  | _, _, _ => return false

/-- Writes the reports that are not what they were before. -/
def writeReports (before after : Tree) : IO Bool := do
  let known := Report.files before
  let mut complete := true
  for (path, content) in Report.files after do
    if known.lookup path ≠ some content then
      let written ← writeReport path content
      if !written then
        (← IO.getStderr).write ⟨(utf8 "Error: cannot write " ++ path ++ utf8 "\n").toArray⟩
        complete := false
  return complete

end JvmCoupling.Command

/-- The program.  Its exit code tells whether the run went well. -/
def main (arguments : List String) : IO UInt32 := do
  let directory ← IO.currentDir
  let found ← JvmCoupling.Command.snapshot [] (← directory.readDir) 64
  let home := JvmCoupling.Path.elements (JvmCoupling.utf8 directory.toString)
  let before := JvmCoupling.Tree.ofItems home found
  let o := JvmCoupling.Command.run before (← JvmCoupling.Command.environment) JvmCoupling.Command.noServer
    (arguments.map JvmCoupling.utf8)
  (← IO.getStdout).write ⟨o.printed.toArray⟩
  (← IO.getStderr).write ⟨o.errorText.toArray⟩
  let complete ← JvmCoupling.Command.writeReports before o.tree
  match o.result with
  | .ok () => return if complete then 0 else 1
  | .error _ => return 1
