import AcpiTables.Bytes
import AcpiTables.Error

/-!
# Hardware identifiers

A device names its hardware in one of two forms: a **PNP identifier**, three
capital letters and four hexadecimal digits, or an **ACPI identifier**, four
capital letters or decimal digits and four hexadecimal digits. The digits `A` to `F` are
capital in both.

A PNP identifier also has a compressed form of four bytes, five bits to a letter
and four to a digit. `AcpiTables.HardwareId.compress` computes it as a number;
letters count from one, so no letter is all zero bits.
-/

namespace AcpiTables

namespace HardwareId

/-! ### Digits and letters -/

/-- The hexadecimal digit, as an ASCII code, that stands for a number below
sixteen. -/
def hexDigit (x : UInt8) : Except Error UInt8 :=
  if x < 10 then .ok (0x30 + x)
  else if x < 16 then .ok (0x41 + (x - 10))
  else .error (.argument (.notHexDigit x))

/-- The capital letters `A` to `Z`. -/
def isCapital (c : Char) : Bool := 'A' ≤ c && c ≤ 'Z'

/-- The decimal digits. -/
def isDecimal (c : Char) : Bool := '0' ≤ c && c ≤ '9'

/-- The hexadecimal digits, capital. -/
def isHex (c : Char) : Bool := isDecimal c || ('A' ≤ c && c ≤ 'F')

/-- The number that a hexadecimal digit stands for. -/
def hexValue (c : Char) : Nat :=
  if isDecimal c then c.toNat - '0'.toNat else c.toNat - 'A'.toNat + 10

/-- The place of a capital letter in the alphabet, from one. -/
def letterValue (c : Char) : Nat := c.toNat - 'A'.toNat + 1

/-! ### The two forms -/

/-- Three capital letters and four hexadecimal digits. -/
def isPnp (id : String) : Bool :=
  id.toList.length == 7 && (id.toList.take 3).all isCapital && (id.toList.drop 3).all isHex

/-- Four capital letters or decimal digits and four hexadecimal digits. -/
def isAcpi (id : String) : Bool :=
  id.toList.length == 8 && (id.toList.take 4).all (fun c => isCapital c || isDecimal c) &&
    (id.toList.drop 4).all isHex

/-- The number that places the parts of a PNP identifier side by side, the first
letter highest: five bits to a letter and four to a digit. -/
def compress (id : String) : Nat :=
  let letters := (id.toList.take 3).foldl (fun n c => n * 32 + letterValue c) 0
  (id.toList.drop 3).foldl (fun n c => n * 16 + hexValue c) letters

end HardwareId

end AcpiTables
