import AcpiTables.Json.Token

/-!
# JSON documents

A document is the value that a sequence of tokens spells out, with nothing in front of
it or behind it. The tokens are read one by one. What is open, the arrays and objects
around the present place, lies on a stack, the innermost on top.
-/

namespace AcpiTables.Json

/-- An array or object that is open, with what was read of it, the last first. -/
inductive Frame where
  /-- An array: the items so far. -/
  | items (before : List Json)
  /-- An object: the members so far, and the key whose value is being read. -/
  | members (before : List (String × Json)) (key : String)

/-- What may come next, and what is open around it. -/
inductive Progress where
  /-- A value. -/
  | value (around : List Frame)
  /-- The first item of an array, or its end. -/
  | firstItem (around : List Frame)
  /-- The next key of an object; its end too, if there is no member yet. -/
  | key (before : List (String × Json)) (mayEnd : Bool) (around : List Frame)
  /-- The colon behind a key. -/
  | colon (before : List (String × Json)) (key : String) (around : List Frame)
  /-- A comma behind a value, or the end of what is open. -/
  | next (value : Json) (inside : Frame) (around : List Frame)
  /-- Nothing: the document is complete. -/
  | complete (value : Json)

namespace Progress

/-- A value was read. -/
def deliver (v : Json) : List Frame → Progress
  | [] => complete v
  | inside :: around => next v inside around

/-- A token comes where a value has to. -/
def start (token : Token) (around : List Frame) : Option Progress :=
  match token with
  | .openObject => some (key [] true around)
  | .openArray => some (firstItem around)
  | .text v => some (deliver (.text v) around)
  | .number v => some (deliver (.number v) around)
  | .bool v => some (deliver (.bool v) around)
  | .null => some (deliver .null around)
  | .closeObject | .closeArray | .colon | .comma => none

/-- Takes one more token. -/
def step (progress : Progress) (token : Token) : Option Progress :=
  match progress, token with
  | value around, token => start token around
  | firstItem around, .closeArray => some (deliver (.array []) around)
  | firstItem around, token => start token (.items [] :: around)
  | key _ true around, .closeObject => some (deliver (.object []) around)
  | key before _ around, .text k => some (colon before k around)
  | colon before k around, .colon => some (value (.members before k :: around))
  | next v (.items before) around, .comma => some (value (.items (v :: before) :: around))
  | next v (.items before) around, .closeArray =>
    some (deliver (.array (v :: before).reverse) around)
  | next v (.members before k) around, .comma => some (key ((k, v) :: before) false around)
  | next v (.members before k) around, .closeObject =>
    some (deliver (.object ((k, v) :: before).reverse) around)
  | _, _ => none

end Progress

/-- The value that tokens spell out. -/
def ofTokens? (tokens : List Token) : Option Json := do
  match ← tokens.foldlM Progress.step (.value []) with
  | .complete value => some value
  | _ => none

/-- The value of a text that is one JSON document. -/
def parse? (text : String) : Option Json := do
  let tokens ← tokens? text
  ofTokens? tokens

end AcpiTables.Json
