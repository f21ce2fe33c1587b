/-!
# Log entries

What is worth telling while tables are made is told as log entries. An entry has a
level, of which there are five, from errors, which are always of interest, to traces,
which hardly ever are.
-/

namespace AcpiTables.Log

/-- How much an entry matters. -/
inductive Level where
  /-- Something went wrong. -/
  | error
  /-- Something may go wrong. -/
  | warn
  /-- Something happened. -/
  | info
  /-- Something happened inside. -/
  | debug
  /-- Something was passed by. -/
  | trace
deriving DecidableEq, Repr

namespace Level

/-- The place of a level, the most important first. -/
def rank : Level → Nat
  | error => 1
  | warn => 2
  | info => 3
  | debug => 4
  | trace => 5

/-- Whether entries of a level are shown where entries up to `limit` are. -/
def isWithin (level limit : Level) : Bool := level.rank ≤ limit.rank

/-- The word for a level. -/
def text : Level → String
  | error => "ERROR"
  | warn => "WARN"
  | info => "INFO"
  | debug => "DEBUG"
  | trace => "TRACE"

end Level

/-- Something told while tables are made. -/
structure Entry where
  /-- How much it matters. -/
  level : Level
  /-- What is told. -/
  message : String
deriving DecidableEq, Repr

/-- An entry on one line, behind its level. -/
def Entry.text (e : Entry) : String := e.level.text ++ ": " ++ e.message

end AcpiTables.Log
