import AcpiTables.Json.Document
import AcpiTables.Json.Kept
import AcpiTables.Platform.Library

/-!
# Configurations as JSON

A configuration is written as a JSON object whose members are the records, each an
object whose members are the fields. What is left out is absent, if it is a record, and
zero, if it is a field; a record may also be `null`. Nothing else is excused: a key that
is not known, a key that comes twice, and a number that does not fit its field are all
refused.

Names may be left out altogether. An array stands for the object whose members it lists
in order. The array of a structure may stop early; the array of a configuration may not.

All this is what `AcpiTables.Readers.standard` makes of what is declared. With the texts and
values of `AcpiTables.Json` it is one library that reads JSON, `AcpiTables.JsonLibrary.standard`.

Two readings differ in what becomes of a key that comes twice.
`AcpiTables.Configuration.ofText` refuses it; `AcpiTables.Configuration.ofMergedText` lets
the last member win, since it looks at the document after it was kept.
-/

namespace AcpiTables

/-! ### Members -/

/-- Whether every key is known and none comes twice. -/
def Json.areKeysOf (names : List String) (members : List (String × Json)) : Bool :=
  members.all (fun member => names.contains member.1) && (members.map Prod.fst).Nodup

/-- The named members that a value stands for, the names being given in order. -/
def Json.members? (names : List String) : Json → Option (List (String × Json))
  | .object members => if Json.areKeysOf names members then some members else none
  | .array items => if items.length ≤ names.length then some (names.zip items) else none
  | _ => none

/-! ### Structures -/

/-- The scalar that a value stands for: an integer in the range of a word. Blocks have no
JSON form. -/
def Scalar.ofJson? : (s : Scalar) → Json → Option s.Value
  | .word w, .number (.integer n) =>
    if 0 ≤ n ∧ n.toNat < Bytes.capacity w.size then some (w.truncate n.toNat) else none
  | _, _ => none

namespace Layout

/-- The names of the members. -/
def names : Layout → List String
  | done => []
  | field name _ rest => name :: names rest
  | reserved _ rest => names rest
  | group name _ rest => name :: names rest

/-- The row whose named members are given. What is not given is zero. -/
def ofMembers? : (l : Layout) → List (String × Json) → Option l.Row
  | done, _ => some ()
  | field name type rest, members => do
    let v ←
      match members.lookup name with
      | none => some type.zero
      | some json => type.ofJson? json
    return (v, ← ofMembers? rest members)
  | reserved type rest, members => do
    return (type.zero, ← ofMembers? rest members)
  | group name inner rest, members => do
    let v ←
      match members.lookup name with
      | none => some inner.zero
      | some json => do ofMembers? inner (← json.members? inner.names)
    return (v, ← ofMembers? rest members)

/-- The row that a value stands for. -/
def ofJson? (l : Layout) (json : Json) : Option l.Row := do
  l.ofMembers? (← json.members? l.names)

end Layout

/-- The packed structure that a value stands for. -/
def Packed.ofJson? {α : Type} [Packed α] (json : Json) : Option α :=
  Packed.ofRow <$> (Packed.layout α).ofJson? json

/-! ### Configurations -/

namespace Configuration

/-- The records that a value stands for, one for each kind. -/
def members? (json : Json) : Option (List (String × Json)) :=
  match json with
  | .array items =>
    if items.length = RecordKind.all.length then json.members? (RecordKind.all.map RecordKind.key)
    else none
  | json => json.members? (RecordKind.all.map RecordKind.key)

/-- The record that a value stands for, or none if the value is `null`. -/
def optionalOfJson? (kind : RecordKind) : Json → Option (Option kind.Record)
  | .null => some none
  | json => some <$> Packed.ofJson? json

/-- The record of a kind among the members of a configuration: absent, or read, or
refused. -/
def recordOf? (members : List (String × Json)) (kind : RecordKind) :
    Option (Option kind.Record) :=
  match members.lookup kind.key with
  | none => some none
  | some json => optionalOfJson? kind json

/-- The configuration that a value stands for. -/
def ofJson? (json : Json) : Option Configuration := do
  let members ← members? json
  if RecordKind.all.all fun kind => (recordOf? members kind).isSome then
    some ⟨fun kind => (recordOf? members kind).join⟩
  else
    none

end Configuration

/-! ### A library -/

/-- The readers above. -/
def Readers.standard : Readers where
  word w := (Scalar.word w).ofJson?
  address := Packed.ofJson?
  record _ := Packed.ofJson?
  optional := Configuration.optionalOfJson?
  configuration := Configuration.ofJson?

/-- The library that reads documents, keeps values of them, and reads both alike. -/
def JsonLibrary.standard : JsonLibrary where
  document? := Json.parse?
  value? text := (Json.parse? text).bind Json.keep?
  configuration? text := (Json.parse? text).bind Configuration.ofJson?
  asWritten := .standard
  asKept := .standard

namespace Configuration

/-- The configuration that a text describes. No key may come twice. -/
def ofText (text : String) : Except Error Configuration := fromText .standard text

/-- The configuration that a text describes. Of several members of one key the last
counts. -/
def ofMergedText (text : String) : Except Error Configuration :=
  match JsonLibrary.standard.value? text with
  | some v => fromValue .standard v
  | none => .error .malformedConfig

end Configuration

end AcpiTables
