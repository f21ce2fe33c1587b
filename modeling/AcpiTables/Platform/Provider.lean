import AcpiTables.Error
import AcpiTables.Platform.Record

/-!
# Record providers

What a platform knows about its hardware is asked from a **provider**: given a kind of
record and a token, it answers with a number of records, packed side by side, or with an
error. A provider is not trusted. Its answer may be about another kind, and its bytes
may not divide into the records it announces.

`AcpiTables.Provider.records` reads an answer. Records beyond the announced number are
left aside; what is not a whole number of records, or fewer than announced, is refused.
-/

namespace AcpiTables

/-- What a provider says. -/
structure Answer where
  /-- The kind of the records. -/
  kind : RecordKind
  /-- The records, side by side. -/
  data : Bytes
  /-- How many records there are. -/
  count : UInt32
deriving DecidableEq, Repr

/-- Whoever can be asked for records of a kind, by a token. -/
abbrev Provider := RecordKind → UInt64 → Except Error Answer

/-- The records of an answer, which is to be about a given kind. -/
def Answer.records (answer : Answer) (kind : RecordKind) : Except Error (List kind.Record) :=
  let size := Packed.size kind.Record
  let announced := answer.count.toNat * size
  let mismatch := Error.sizeMismatch kind answer.data.length size
  if answer.kind ≠ kind then .error (.parameter (.wrongKind kind answer.kind))
  else if answer.data.length % size ≠ 0 ∨ answer.data.length < announced then .error mismatch
  else
    match Packed.manyOfBytes? (answer.data.take announced) with
    | some records => .ok records
    | none => .error mismatch

namespace Provider

/-- The token of the records that describe the platform as a whole. -/
def platformToken : UInt64 := 0

/-- The records of a kind under a token. -/
def records (provider : Provider) (kind : RecordKind) (token : UInt64) :
    Except Error (List kind.Record) := do
  let answer ← provider kind token
  answer.records kind

/-- The first record of a kind under a token. -/
def record (provider : Provider) (kind : RecordKind) (token : UInt64) :
    Except Error kind.Record := do
  match ← provider.records kind token with
  | record :: _ => return record
  | [] => .error (.notFound kind)

/-- A provider that has fixed answers for some kinds, whatever the token. -/
def override (provider : Provider) (fixed : RecordKind → Option (Except Error Answer)) :
    Provider := fun kind token =>
  match fixed kind with
  | some answer => answer
  | none => provider kind token

end Provider

end AcpiTables
