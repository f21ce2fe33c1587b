import AcpiTables.Bytes
import AcpiTables.Error

/-!
# Resource descriptors

The resources of a device are a list of descriptors, one behind the other. A
**small** item has its name and its length in its first byte, the tag; a **large**
item, marked by the highest bit of the tag, has its name there and its length in the
two bytes that follow. The list is closed by an **End Tag**, a small item whose body
is one checksum byte. A zero checksum counts as right.

`AcpiTables.Resource.Header.parse` looks only at the front of its input, so it also
reads the first descriptor of a list. `AcpiTables.Resource.checkDescriptor` asks
that the input is one descriptor and nothing else.
-/

namespace AcpiTables.Resource

/-- What the first bytes of a descriptor say about it. -/
structure Header where
  /-- Whether the item is a large one. -/
  isLarge : Bool
  /-- The name of the item: four bits in a small item and seven in a large one. -/
  name : UInt8
  /-- How many bytes follow the header. -/
  bodySize : Nat
deriving DecidableEq, Repr

/-- The name of the End Tag, a small item. -/
def endTagName : UInt8 := 0x0F

/-- The name of the extended interrupt descriptor, a large item. -/
def interruptName : UInt8 := 0x09

namespace Header

/-- Reads the header at the front of `bytes`. -/
def parse (bytes : Bytes) : Except Error Header :=
  match bytes with
  | [] => .error (.argument .emptyDescriptor)
  | tag :: rest =>
    if tag < 0x80 then .ok ⟨false, tag / 8, (tag % 8).toNat⟩
    else
      match rest with
      | low :: high :: _ => .ok ⟨true, tag % 0x80, Bytes.toNatLE [low, high]⟩
      | _ => .error (.argument (.truncatedDescriptor tag bytes.length))

/-- How many bytes the header takes. -/
def size (h : Header) : Nat := if h.isLarge then 3 else 1

/-- How many bytes the whole descriptor takes. -/
def totalSize (h : Header) : Nat := h.size + h.bodySize

/-- Whether the descriptor is a small item with the name of the End Tag, of
whatever length. -/
def isEndTagLike (h : Header) : Bool := !h.isLarge && h.name == endTagName

/-- Whether the descriptor is an End Tag: with one byte for the checksum. -/
def isEndTag (h : Header) : Bool := h.isEndTagLike && h.bodySize == 1

/-- Whether the descriptor is an extended interrupt descriptor. -/
def isInterrupt (h : Header) : Bool := h.isLarge && h.name == interruptName

end Header

/-- The header of `bytes`, if they are one descriptor of the size it declares, and
no End Tag without its checksum. -/
def checkDescriptor (bytes : Bytes) : Except Error Header := do
  let header ← Header.parse bytes
  if header.totalSize ≠ bytes.length then
    .error (.argument (.descriptorSize header.totalSize bytes.length))
  else if header.isEndTagLike && !header.isEndTag then
    .error (.argument (.endTagBody header.bodySize))
  else
    .ok header

/-- The size of the descriptor at the front of `bytes`, as it declares it. -/
def descriptorSize (bytes : Bytes) : Except Error Nat := Header.totalSize <$> Header.parse bytes

/-- Whether an End Tag stands at the front of `bytes`. -/
def startsWithEndTag (bytes : Bytes) : Bool :=
  match Header.parse bytes with
  | .ok header => header.isEndTag
  | .error _ => false

/-- The End Tag that closes every list. -/
def endTag : Bytes := [0x79, 0x00]

end AcpiTables.Resource
