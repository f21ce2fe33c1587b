import AcpiTables.Packed.Basic

/-!
# Generic addresses

A register of the platform is located by a generic address: the address space, the
width and place of the register in bits, how it is accessed, and the address.
-/

namespace AcpiTables

/-- Where a register is. -/
structure GenericAddress where
  /-- The address space: 0 for memory, 1 for I/O ports. -/
  spaceId : UInt8
  /-- How many bits the register has. -/
  bitWidth : UInt8
  /-- The place of the first bit. -/
  bitOffset : UInt8
  /-- The size of one access; 0 leaves it open. -/
  accessSize : UInt8
  /-- The address in the space. -/
  address : UInt64
deriving DecidableEq, Repr

namespace GenericAddress

/-- The address space of I/O ports. -/
def ioSpace : UInt8 := 1

/-- The members of a generic address. -/
def layout : Layout :=
  .word "space_id" .byte <| .word "bit_width" .byte <| .word "bit_offset" .byte <|
  .word "access_size" .byte <| .word "address" .qword <| .done

/-- The members' values. -/
def toRow (a : GenericAddress) : layout.Row :=
  (a.spaceId, a.bitWidth, a.bitOffset, a.accessSize, a.address, ())

/-- The address with given members. -/
def ofRow (row : layout.Row) : GenericAddress :=
  match row with
  | (spaceId, bitWidth, bitOffset, accessSize, address, ()) =>
    { spaceId, bitWidth, bitOffset, accessSize, address }

instance : Packed GenericAddress where
  layout := layout
  toRow := toRow
  ofRow := ofRow
  ofRow_toRow _ := rfl
  toRow_ofRow _ := rfl

/-- The I/O port at an address of a given width. The width of the address is taken
for the width of the register, and its bytes for the access size. -/
def ofPort (w : Width) (address : w.Value) : GenericAddress where
  spaceId := ioSpace
  bitWidth := 8 * UInt8.ofNat w.size
  bitOffset := 0
  accessSize := UInt8.ofNat w.size
  address := UInt64.ofNat (w.toNat address)

end GenericAddress

end AcpiTables
