import AcpiTables.Aml.DataObject
import AcpiTables.Aml.NamePath

/-!
# Declarations

AML declares an object by a `Name`, which gives it a value, or by opening a region
of the namespace, a `Scope` or a `Device`, that holds further declarations. The
first two functions here join parts that are encoded already; the other two also
read the written name. Only a `Scope` may open the root.
-/

namespace AcpiTables.Aml

/-- A `Name`: the encoded name, then the encoded value. -/
def declaration (label value : Bytes) : Bytes := 0x08 :: (label ++ value)

/-- The opcode of a region. -/
def regionMark : Region → Bytes
  | .scope => [0x10]
  | .device => [0x5B, 0x82]

/-- A region: a package of the encoded name and the encoded members. -/
def regionOf (kind : Region) (label members : Bytes) : Bytes :=
  let body := label ++ members
  regionMark kind ++ packageLength body.length true ++ body

/-- A `Name` under a written name. -/
def declareName (name : String) (value : Bytes) : Except Error Bytes := do
  let label ← objectName name false
  return declaration label value

/-- The encoded name of a region under a written name. -/
def regionLabel (kind : Region) (name : String) : Except Error Bytes :=
  objectName name (kind == .scope)

/-- A region under a written name, with its members in order. -/
def declareRegion (kind : Region) (name : String) (members : List Bytes) :
    Except Error Bytes := do
  let label ← regionLabel kind name
  return regionOf kind label members.flatten

end AcpiTables.Aml
