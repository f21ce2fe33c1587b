import AcpiTables.Aml.PackageLength
import AcpiTables.HardwareId
import AcpiTables.Width

/-!
# Data objects

The values that AML can write: integers, strings, compressed hardware identifiers
and buffers. Each starts with a byte that tells its form, and each ends where its
form says, so a value needs no mark behind it.

An integer has six forms, of which `AcpiTables.Aml.integer` takes the shortest that
holds the number.
-/

namespace AcpiTables.Aml

/-- The integer 0. -/
def zero : Bytes := [0x00]

/-- The integer 1. -/
def one : Bytes := [0x01]

/-- The integer with every bit set. -/
def ones : Bytes := [0xFF]

/-- The byte that announces an integer of a given width. -/
def integerMark : Width → UInt8
  | .byte => 0x0A
  | .word => 0x0B
  | .dword => 0x0C
  | .qword => 0x0E

/-- An integer of a given width, the announcing byte first. -/
def integerOf (w : Width) (v : w.Value) : Bytes :=
  integerMark w :: Bytes.ofNatLE w.size (w.toNat v)

/-- An integer in its shortest form. -/
def integer (v : UInt64) : Bytes :=
  let n := v.toNat
  if n = 0 then zero
  else if n = 1 then one
  else if n < 0x100 then integerOf .byte (UInt8.ofNat n)
  else if n < 0x10000 then integerOf .word (UInt16.ofNat n)
  else if n < 0x100000000 then integerOf .dword (UInt32.ofNat n)
  else integerOf .qword v

/-- A string, which ends at its first zero byte. -/
def string (text : String) : Bytes := 0x0D :: (Bytes.ofString text ++ [0x00])

/-- A PNP identifier, compressed to a dword that is written highest byte first. -/
def eisaId (id : String) : Except Error Bytes :=
  if HardwareId.isPnp id then
    .ok (integerMark .dword :: Bytes.ofNatBE 4 (HardwareId.compress id))
  else
    .error (.argument (.notPnpId id))

/-- A buffer: a package of the size of the payload and the payload. -/
def buffer (payload : Bytes) : Bytes :=
  let size := integer (UInt64.ofNat payload.length)
  0x11 :: (packageLength (size.length + payload.length) true ++ size ++ payload)

end AcpiTables.Aml
