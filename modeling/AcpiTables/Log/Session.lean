import AcpiTables.Log.Directory
import AcpiTables.Log.Entry

/-!
# Log sessions

A program has one log for its whole run. It is installed once, with a limit on the
levels that are shown and with a place to write to: the console, or the end of a file of
the working directory (`AcpiTables.Log.Directory`). Until then entries are lost.

A log that cannot be installed because there is one already has opened its file
nevertheless, so the file is there afterwards.
-/

namespace AcpiTables.Log

/-! ### Records -/

/-- An entry together with the place in the program where it was told. -/
structure Record where
  /-- The entry. -/
  entry : Entry
  /-- The source file, if it is known. -/
  file : Option String
  /-- The line of the source file, if it is known. -/
  line : Option UInt32
deriving DecidableEq, Repr

/-- A record as one line of the log. What is not known of its place is left empty. -/
def Record.render (r : Record) : String :=
  "[" ++ r.file.getD "" ++ ": " ++ toString ((r.line.getD 0).toNat) ++ "]:" ++ r.entry.text ++ "\n"

/-! ### Sessions -/

/-- Where a log is written to. -/
inductive Sink where
  /-- The console. -/
  | console
  /-- The end of a file. -/
  | file (name : String)
deriving DecidableEq, Repr

/-- A log that is installed. -/
structure Installed where
  /-- Where the log is written to. -/
  sink : Sink
  /-- The last level that is shown. -/
  limit : Level
deriving DecidableEq, Repr

/-- The state of a program's log. -/
structure Session where
  /-- The working directory. -/
  files : Directory
  /-- What was written to the console. -/
  console : String
  /-- The log, once there is one. -/
  installed : Option Installed
deriving DecidableEq, Repr

/-- Why a log was not installed. -/
inductive InstallError where
  /-- The file cannot be opened. -/
  | unopened (path : String)
  /-- There is a log already. -/
  | secondLog (path : String)
deriving DecidableEq, Repr

/-- What an error says. -/
def InstallError.message : InstallError → String
  | unopened path => "Failed to open log file " ++ path
  | secondLog path => "Failed to init logger: " ++ path

namespace Session

/-- The state of a program that has just started. -/
def fresh (files : Directory) : Session := ⟨files, "", none⟩

/-- Opens the place that a path denotes: the console if the path is empty, else a
file. -/
def openSink (path : String) : EStateM InstallError Session Sink := do
  if path.isEmpty then return .console
  match Directory.resolve? path with
  | none => throw (.unopened path)
  | some name =>
    modifyGet fun s => ((), { s with files := Directory.append name "" s.files })
    return .file name

/-- Installs the log. -/
def install (path : String) (limit : Level) : EStateM InstallError Session Unit := do
  let sink ← openSink path
  if (← get).installed.isSome then throw (.secondLog path)
  modifyGet fun s => ((), { s with installed := some ⟨sink, limit⟩ })

/-- Whether entries of a level are shown. -/
def isEnabled (s : Session) (level : Level) : Bool :=
  match s.installed with
  | some log => level.isWithin log.limit
  | none => false

/-- The word for the last level that is shown. -/
def limitText (s : Session) : String :=
  match s.installed with
  | some log => log.limit.text
  | none => "OFF"

/-- Writes a record to the log, if it is to be shown. -/
def emit (s : Session) (r : Record) : Session :=
  match s.installed with
  | some log =>
    if r.entry.level.isWithin log.limit then
      match log.sink with
      | .console => { s with console := s.console ++ r.render }
      | .file name => { s with files := Directory.append name r.render s.files }
    else s
  | none => s

end Session

end AcpiTables.Log
