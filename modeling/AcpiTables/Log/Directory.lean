/-!
# The working directory

Where a file is, and whether there can be one, is the business of the system that a program runs on.
This file stands for it: a directory without any directory in it, and the paths that lead to a file
of it. Logs are written by `AcpiTables.Log.Session`, which knows only that a path denotes a file or
does not, and that text can be put at the end of a file.
-/

namespace AcpiTables.Log

/-- The directory that a program works in: the names and texts of its files. There is no
directory inside it. -/
abbrev Directory := List (String × String)

namespace Directory

/-- The longest name of a file, in bytes. -/
def maxNameSize : Nat := 255

/-- The longest path, in bytes. Steps that stay where they are count. -/
def maxPathSize : Nat := 4095

/-- Whether a step of a path stays where it is. -/
def isStill (step : String) : Bool := step == "" || step == "."

/-- Whether a file can have a name. -/
def isName (name : String) : Bool :=
  !isStill name && name != ".." && !name.contains '\x00' && name.utf8ByteSize ≤ maxNameSize

/-- The file that a path denotes. Steps that stay where they are lead nowhere else; any
other step but the last has no directory to go to. A path that is too long denotes nothing. -/
def resolve? (path : String) : Option String :=
  let steps := path.splitOn "/"
  let name := steps.getLastD ""
  if path.utf8ByteSize ≤ maxPathSize && steps.dropLast.head? != some "" &&
      steps.dropLast.all isStill && isName name then some name
  else none

/-- Appends a text to a file, which is made if it is not there. -/
def append (name text : String) : Directory → Directory
  | [] => [(name, text)]
  | (n, held) :: rest =>
    if n = name then (n, held ++ text) :: rest else (n, held) :: append name text rest

end Directory

end AcpiTables.Log
