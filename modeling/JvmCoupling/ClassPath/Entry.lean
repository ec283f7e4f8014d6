import JvmCoupling.Storage.Path
import JvmCoupling.Text.Case

/-! # Names on a class path

What the name of a class path entry, or of a file below one, says about it.
-/

namespace JvmCoupling.ClassPath

/-- The directory whose archives a wildcard stands for: a lone star means the working directory. -/
def wildcardDirectory? (entry : Bytes) : Option Bytes :=
  if entry = utf8 "*" then some Path.here
  else if (utf8 "/*").isSuffixOf entry then some (entry.take (entry.length - 2))
  else none

/-- A name with the extension of an archive, in any letter case. -/
def isArchive (name : Bytes) : Bool :=
  let extension := Text.lower (Path.extension name)
  extension = utf8 ".jar" || extension = utf8 ".zip"

/-- A name with the extension that wildcards look for, in any letter case. -/
def isJar (name : Bytes) : Bool := Text.asciiLower (Path.extension name) = utf8 ".jar"

/-- The extension of a class file. -/
def classExtension : Bytes := utf8 ".class"

/-- The name of a file that holds a class.  The descriptors of modules and packages hold none. -/
def isClassFile (name : Bytes) : Bool :=
  let base := Path.base name
  classExtension.isSuffixOf base && base ≠ utf8 "module-info.class" && base ≠ utf8 "package-info.class"

end JvmCoupling.ClassPath
