/-!
# Handles and kinds of tree nodes

A node of an AML tree is referred to by a **handle**: the slot it lives in and the
generation of that slot. A slot is used again after its node is freed, under the
next generation, so a handle kept for too long never denotes a newer node.

Nodes are objects, told apart by their opcode, or data, told apart by the type of
their bytes. `Scope` and `Device` share everything but the opcode they are written
with: both open a region of the namespace, so they are one kind of object with a
`AcpiTables.Region`.
-/

namespace AcpiTables

/-- Refers to one node of a tree: the slot it is in, and which of the slot's
successive nodes it is. -/
structure Handle where
  /-- The position of the slot. -/
  index : UInt32
  /-- How many nodes of the slot have been freed before this one. -/
  generation : UInt32
deriving DecidableEq, Repr

/-- A handle is written as its slot and generation. -/
def Handle.text (h : Handle) : String :=
  "#" ++ toString h.index.toNat ++ "." ++ toString h.generation.toNat

instance : ToString Handle := ⟨Handle.text⟩

/-- The objects that open a region of the namespace and hold other objects. -/
inductive Region where
  /-- `Scope (Name) { … }`. -/
  | scope
  /-- `Device (Name) { … }`. -/
  | device
deriving DecidableEq, Repr

/-- The opcode of an object. -/
inductive Opcode where
  /-- `Name (Label, Value)`. -/
  | name
  /-- `Buffer { … }`. -/
  | buffer
  /-- `Scope` or `Device`. -/
  | region (kind : Region)
deriving DecidableEq, Repr

/-- The word for an opcode in messages. -/
def Opcode.text : Opcode → String
  | name => "Name"
  | buffer => "Buffer"
  | region .scope => "Scope"
  | region .device => "Device"

/-- What the bytes of a data node are. -/
inductive DataType where
  /-- An encoded name string. -/
  | nameString
  /-- An encoded object, such as an integer or a string. -/
  | raw
  /-- One resource descriptor. -/
  | resourceData
deriving DecidableEq, Repr

/-- The word for a data type in messages. -/
def DataType.text : DataType → String
  | nameString => "NameString"
  | raw => "Raw"
  | resourceData => "ResourceData"

end AcpiTables
