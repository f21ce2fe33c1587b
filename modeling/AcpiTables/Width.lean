import AcpiTables.Bytes

/-!
# Word widths

ACPI knows four sizes of integer: the byte, the word, the dword and the qword.
`AcpiTables.Width` names them, and `AcpiTables.Width.Value` is the type of the
integers of that size. Integer objects in AML, I/O ports and the fields of the
packed tables all take their sizes from here.
-/

namespace AcpiTables

/-- The size of an integer. -/
inductive Width where
  /-- One byte. -/
  | byte
  /-- Two bytes. -/
  | word
  /-- Four bytes. -/
  | dword
  /-- Eight bytes. -/
  | qword
deriving DecidableEq, Repr

namespace Width

/-- How many bytes an integer of this width takes. -/
def size : Width → Nat
  | byte => 1
  | word => 2
  | dword => 4
  | qword => 8

/-- The integers of this width. -/
abbrev Value : Width → Type
  | byte => UInt8
  | word => UInt16
  | dword => UInt32
  | qword => UInt64

/-- The number that a word stands for. -/
def toNat : (w : Width) → w.Value → Nat
  | byte, v => UInt8.toNat v
  | word, v => UInt16.toNat v
  | dword, v => UInt32.toNat v
  | qword, v => UInt64.toNat v

/-- The word that a number leaves after dropping the bits that do not fit. -/
def truncate : (w : Width) → Nat → w.Value
  | byte, n => UInt8.ofNat n
  | word, n => UInt16.ofNat n
  | dword, n => UInt32.ofNat n
  | qword, n => UInt64.ofNat n

theorem toNat_lt (w : Width) (v : w.Value) : w.toNat v < Bytes.capacity w.size := by
  cases w with
  | byte => exact UInt8.toNat_lt v
  | word => exact UInt16.toNat_lt v
  | dword => exact UInt32.toNat_lt v
  | qword => exact UInt64.toNat_lt v

@[simp] theorem truncate_toNat (w : Width) (v : w.Value) : w.truncate (w.toNat v) = v := by
  cases w with
  | byte => exact UInt8.ofNat_toNat
  | word => exact UInt16.ofNat_toNat
  | dword => exact UInt32.ofNat_toNat
  | qword => exact UInt64.ofNat_toNat

theorem toNat_truncate (w : Width) (n : Nat) :
    w.toNat (w.truncate n) = n % Bytes.capacity w.size := by
  cases w with
  | byte => exact UInt8.toNat_ofNat'
  | word => exact UInt16.toNat_ofNat'
  | dword => exact UInt32.toNat_ofNat'
  | qword => exact UInt64.toNat_ofNat'

end Width

end AcpiTables
