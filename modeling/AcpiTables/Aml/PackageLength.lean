import AcpiTables.Bytes

/-!
# Package lengths

An AML package starts with its length, and the length counts itself. It takes one
to four bytes. The two highest bits of the first byte say how many bytes follow.
A length below 64 then fits the other six bits; a longer one has its lowest four
bits there, and eight more in each byte that follows.

The number of bytes is chosen before the length is completed by it
(`AcpiTables.Aml.packageLengthSize`), always leaving room for the completion. Four bytes
hold 28 bits, and of a longer package only these are written.
-/

namespace AcpiTables.Aml

/-- How many bytes the length field takes for a package of `length` bytes, the
field not counted. -/
def packageLengthSize (length : Nat) : Nat :=
  if length + 1 < 0x40 then 1
  else if length + 2 < 0x1000 then 2
  else if length + 3 < 0x100000 then 3
  else 4

/-- The number that the length field of a package of `length` bytes holds: with
the field itself counted, or without. -/
def packageLengthValue (length : Nat) (countSelf : Bool) : Nat :=
  if countSelf then length + packageLengthSize length else length

/-- The length field of a package of `length` bytes, the field not counted. -/
def packageLength (length : Nat) (countSelf : Bool) : Bytes :=
  let value := packageLengthValue length countSelf
  match packageLengthSize length - 1 with
  | 0 => [UInt8.ofNat value]
  | following => UInt8.ofNat (following * 64 + value % 16) :: Bytes.ofNatLE following (value / 16)

end AcpiTables.Aml
