import AcpiTables.Aml.Declaration
import AcpiTables.Resource.Interrupt
import AcpiTables.Table.GenericAddress

/-!
# AML terms

`AcpiTables.Aml.Term` is a piece of AML as it is written down, and
`AcpiTables.Aml.Term.encode` its bytes. A term need not be well formed: a name may be
spelt wrong, a hardware identifier may be none, and then the term has no bytes but an
error.

Of several faults in one term the first is reported. The value of a `Name` comes before
its name, and the name of a region comes before its members.
-/

namespace AcpiTables.Aml

/-- A piece of AML. -/
inductive Term where
  /-- The integer 0. -/
  | zero
  /-- The integer 1. -/
  | one
  /-- The integer with every bit set. -/
  | ones
  /-- The descriptor that closes a list of resources. -/
  | endTag
  /-- An integer of a given width. -/
  | fixed (w : Width) (v : w.Value)
  /-- An integer in its shortest form. -/
  | integer (v : UInt64)
  /-- A string. -/
  | string (text : String)
  /-- A compressed PNP identifier. -/
  | eisaId (id : String)
  /-- A buffer of bytes. -/
  | buffer (payload : Bytes)
  /-- An extended interrupt descriptor. -/
  | interrupt (signalling : Resource.Signalling) (numbers : List UInt32)
  /-- A generic address, packed. -/
  | address (a : GenericAddress)
  /-- A `Name`. -/
  | name (label : String) (value : Term)
  /-- A `Scope` or `Device` with its members. -/
  | region (kind : Region) (label : String) (members : List Term)

mutual

/-- The bytes of a term. -/
def Term.encode : Term → Except Error Bytes
  | .zero => return Aml.zero
  | .one => return Aml.one
  | .ones => return Aml.ones
  | .endTag => return Resource.endTag
  | .fixed w v => return integerOf w v
  | .integer v => return Aml.integer v
  | .string text => return Aml.string text
  | .eisaId id => Aml.eisaId id
  | .buffer payload => return Aml.buffer payload
  | .interrupt signalling numbers =>
    Resource.Interrupt.encode <$> Resource.Interrupt.ofNumbers signalling numbers
  | .address a => return Packed.encode a
  | .name label value => do
    let value ← value.encode
    declareName label value
  | .region kind label members => do
    let label ← regionLabel kind label
    let members ← encodeMembers members
    return regionOf kind label members.flatten

/-- The bytes of each of several terms. -/
def Term.encodeMembers : List Term → Except Error (List Bytes)
  | [] => return []
  | t :: ts => do
    let bytes ← t.encode
    let more ← encodeMembers ts
    return bytes :: more

end

end AcpiTables.Aml
