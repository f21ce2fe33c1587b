import AcpiTables.Packed.Layout

/-!
# Packed structures

A type is `AcpiTables.Packed` when its values are the rows of a layout, and then it
has the bytes of its rows. The functions here are the interface to the bytes:
writing a value, reading one or many, and changing single bytes in place.

Reading one value allows further bytes behind it. Reading many asks that the bytes
divide into values without a rest.

| fact | theorem |
|---|---|
| a value takes the size of its type | `AcpiTables.Packed.length_encode` |
| what was written is read back | `AcpiTables.Packed.ofBytes?_encode_append` |
| what was read is what was written | `AcpiTables.Packed.encode_of_ofBytes?` |
| only a short string is not read | `AcpiTables.Packed.ofBytes?_eq_none_iff` |
-/

namespace AcpiTables

/-- The types whose values are the rows of a layout. -/
class Packed (α : Type) where
  /-- The members of a value. -/
  layout : Layout
  /-- The members' values. -/
  toRow : α → layout.Row
  /-- The value with given members. -/
  ofRow : layout.Row → α
  /-- A value is no more than its members. -/
  ofRow_toRow : ∀ a, ofRow (toRow a) = a
  /-- Every row is a value. -/
  toRow_ofRow : ∀ row, toRow (ofRow row) = row

namespace Packed

/-- How many bytes a value takes. -/
def size (α : Type) [Packed α] : Nat := (layout α).size

variable {α : Type} [Packed α]

/-- The value of which every byte is zero. -/
def zero : α := ofRow (layout α).zero

/-- The bytes of a value. -/
def encode (a : α) : Bytes := (layout α).encode (toRow a)

/-- The value at the front of a byte string, if the string is long enough. -/
def ofBytes? (bs : Bytes) : Option α := ((layout α).read bs).map fun p => ofRow p.1

/-- The values that a byte string holds side by side, if nothing is left over. -/
def manyOfBytes? (bs : Bytes) : Option (List α) :=
  if bs.length % size α = 0 then
    (Bytes.chunks (size α) (bs.length / size α) bs).mapM ofBytes?
  else
    none

/-- Writes single bytes, given by their places, in order. -/
def patch (edits : List (Nat × UInt8)) (a : α) : α :=
  let bytes := edits.foldl (fun bs (i, b) => bs.set i b) (encode a)
  (ofBytes? bytes).getD a

@[simp] theorem length_encode (a : α) : (encode a).length = size α :=
  Layout.length_encode _ _

theorem ofBytes?_encode_append (a : α) (rest : Bytes) : ofBytes? (encode a ++ rest) = some a := by
  rw [ofBytes?, encode, Layout.read_encode_append, Option.map_some, ofRow_toRow]

theorem encode_of_ofBytes? {bs : Bytes} {a : α} (h : ofBytes? bs = some a) :
    encode a = bs.take (size α) := by
  obtain ⟨⟨row, rest⟩, hr, rfl⟩ := Option.map_eq_some_iff.mp h
  have hbs := Layout.eq_encode_append_of_read hr
  rw [encode, toRow_ofRow, hbs]
  exact (List.take_left' (Layout.length_encode _ row)).symm

theorem ofBytes?_eq_none_iff {bs : Bytes} : ofBytes? (α := α) bs = none ↔ bs.length < size α :=
  Option.map_eq_none_iff.trans Layout.read_eq_none_iff

end Packed

/-! ### Words -/

instance : Packed UInt8 where
  layout := .word "value" .byte .done
  toRow v := (v, ())
  ofRow row := row.1
  ofRow_toRow _ := rfl
  toRow_ofRow _ := rfl

instance : Packed UInt16 where
  layout := .word "value" .word .done
  toRow v := (v, ())
  ofRow row := row.1
  ofRow_toRow _ := rfl
  toRow_ofRow _ := rfl

instance : Packed UInt32 where
  layout := .word "value" .dword .done
  toRow v := (v, ())
  ofRow row := row.1
  ofRow_toRow _ := rfl
  toRow_ofRow _ := rfl

instance : Packed UInt64 where
  layout := .word "value" .qword .done
  toRow v := (v, ())
  ofRow row := row.1
  ofRow_toRow _ := rfl
  toRow_ofRow _ := rfl

end AcpiTables
