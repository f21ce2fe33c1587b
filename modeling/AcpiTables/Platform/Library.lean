import AcpiTables.Json.Basic
import AcpiTables.Platform.Configuration

/-!
# Reading configurations

A configuration is written in JSON. To take a text apart, and to find the fields of a structure in
what was written, is not the business of this library: it is done by another one, which is a
parameter here (`AcpiTables.JsonLibrary`). It is told which structures there are and what is
declared about each, and it gives readers in return.

A configuration is read in one of two ways. `AcpiTables.Configuration.fromText` reads a text as it
comes. `AcpiTables.Configuration.fromValue` reads a value that was kept of a document. Each way has
readers of its own.
-/

namespace AcpiTables

/-- **Readers of JSON values**, one for each type of which a configuration consists. -/
structure Readers where
  /-- The reader of words. -/
  word : (w : Width) → Json → Option w.Value
  /-- The reader of addresses. -/
  address : Json → Option GenericAddress
  /-- The reader of the records of a kind. -/
  record : (kind : RecordKind) → Json → Option kind.Record
  /-- The reader of a record that may be absent. -/
  optional : (kind : RecordKind) → Json → Option (Option kind.Record)
  /-- The reader of configurations. -/
  configuration : Json → Option Configuration

/-- **A library that reads JSON.** -/
structure JsonLibrary where
  /-- The document that a text is: one value, each object with all members that are written. -/
  document? : String → Option Json
  /-- The value that is kept of the document that a text is. -/
  value? : String → Option Json
  /-- The configuration that is read of a text as it comes. -/
  configuration? : String → Option Configuration
  /-- The readers of a document as it comes. -/
  asWritten : Readers
  /-- The readers of a value that was kept. -/
  asKept : Readers

namespace Configuration

variable (library : JsonLibrary)

/-- The configuration that a text describes, read as the text comes. -/
def fromText (text : String) : Except Error Configuration :=
  match library.configuration? text with
  | some config => .ok config
  | none => .error .malformedConfig

/-- The configuration that a value describes which was kept of a document. -/
def fromValue (v : Json) : Except Error Configuration :=
  match library.asKept.configuration v with
  | some config => .ok config
  | none => .error .malformedConfig

end Configuration

end AcpiTables
