import AcpiTables.Platform.RecordKind
import AcpiTables.Text.Quoted
import AcpiTables.Tree.Handle

/-!
# What can go wrong

An error is a cause, not a text. Its class says who is at fault: an argument that
is wrong whatever the state (`AcpiTables.ArgumentFault`), a parameter that does not
fit the request (`AcpiTables.ParameterFault`), a request that the present state
of a tree does not allow (`AcpiTables.StateFault`), or one who was to provide something,
a record or memory, and did not (`AcpiTables.ProviderFault`). The remaining errors are
about one handle or one kind of record.

Two errors of one class differ only in what they name, which is why the class
alone is what one may rely on across equivalent trees. The wording of every cause
stands in the `message` functions of this file and nowhere else.
-/

namespace AcpiTables

/-- What is wrong with an argument. -/
inductive ArgumentFault where
  /-- A number that no hexadecimal digit stands for. -/
  | notHexDigit (value : UInt8)
  /-- A text that is no PNP identifier. -/
  | notPnpId (id : String)
  /-- A name that starts both at the root and at a parent, or twice at the root. -/
  | mixedAnchor (name : String)
  /-- A name with more segments than can be counted in a byte. -/
  | segmentCount (count : Nat)
  /-- A name segment that is empty or longer than four bytes. -/
  | segmentLength (segment : String)
  /-- A name segment with a character that does not belong there. -/
  | segmentCharacter (segment : String)
  /-- A name without a last segment, where an object is to be named. -/
  | nameless (name : String)
  /-- A descriptor without a tag. -/
  | emptyDescriptor
  /-- A large descriptor too short for its header. -/
  | truncatedDescriptor (tag : UInt8) (held : Nat)
  /-- A descriptor that is not as long as it declares. -/
  | descriptorSize (declared held : Nat)
  /-- An End Tag that does not have exactly its checksum as body. -/
  | endTagBody (size : Nat)
  /-- A list of interrupts that does not fit one descriptor. -/
  | interruptCount (count : Nat)
  /-- An announced number of interrupts that is not the number listed. -/
  | interruptMismatch (announced listed : Nat)
  /-- A descriptor that is no extended interrupt descriptor. -/
  | notInterrupt (tag : UInt8)
  /-- An extended interrupt descriptor without flags and count. -/
  | interruptBody
  /-- An interrupt table of the wrong size. -/
  | interruptTable (declared held : Nat)
  /-- A data node without bytes. -/
  | emptyData (type : DataType)
  /-- An object with a name it cannot have, or without a name it needs. -/
  | objectName (opcode : Opcode) (name : Option String)
  /-- A fault worded by a record provider. -/
  | stated (text : String)
deriving DecidableEq, Repr

/-- What is wrong with a parameter of a request. -/
inductive ParameterFault where
  /-- A parent that holds no objects. -/
  | notRegion (node : Handle)
  /-- A node that is no `Name`. -/
  | notName (node : Handle)
  /-- A `Name` whose value is no buffer. -/
  | noTemplate (node : Handle)
  /-- A list of interrupts that does not fit one descriptor. -/
  | interruptCount (count : Nat)
  /-- A text that no string object can hold. -/
  | unprintable (text : String)
  /-- A hardware identifier of neither form. -/
  | notHardwareId (id : String)
  /-- A provider's answer for another kind of record. -/
  | wrongKind (asked got : RecordKind)
  /-- A fault worded by a record provider. -/
  | stated (text : String)
deriving DecidableEq, Repr

/-- Why the present state does not allow a request. -/
inductive StateFault where
  /-- The node cannot stand as the value of a `Name`. -/
  | notValue (node : Handle)
  /-- The node has a parent already. -/
  | attached (node parent : Handle)
  /-- The node would become its own ancestor by being attached. -/
  | attachCycle (node parent : Handle)
  /-- The node would become its own ancestor by replacing another. -/
  | replaceCycle (node parent : Handle)
  /-- The parent does not hold nodes of this kind. -/
  | misfit (node : Handle) (opcode : Opcode) (parent : Handle)
  /-- A data node was to be a parent. -/
  | dataParent (parent : Handle)
  /-- The node is no `Buffer`. -/
  | notBuffer (node : Handle)
  /-- The buffer has its End Tag already. -/
  | secondEndTag (buffer : Handle)
  /-- The node has no parent. -/
  | detached (node : Handle)
  /-- The node is a fixed argument, which cannot be taken away. -/
  | fixedArgument (node parent : Handle)
  /-- The parent does not list the node. -/
  | unlinked (node parent : Handle)
  /-- An End Tag and another descriptor were to change places. -/
  | endTagReplacement
  /-- The node is no name string. -/
  | notNameString (node : Handle)
  /-- A fault worded by a record provider. -/
  | stated (text : String)
deriving DecidableEq, Repr

/-- Why something was not provided. -/
inductive ProviderFault where
  /-- A fault worded by a record provider. -/
  | stated (text : String)
  /-- Memory of a size, in bytes, was not there. -/
  | memory (size : Nat)
deriving DecidableEq, Repr

/-- A record provider may state why it failed. -/
instance : Coe String ProviderFault := ⟨.stated⟩

/-- Everything that a request to this library can fail with. -/
inductive Error where
  /-- An argument is wrong. -/
  | argument (fault : ArgumentFault)
  /-- A parameter does not fit the request. -/
  | parameter (fault : ParameterFault)
  /-- The state does not allow the request. -/
  | state (fault : StateFault)
  /-- The handle denotes no node. -/
  | deadNode (node : Handle)
  /-- There is no record of this kind. -/
  | notFound (kind : RecordKind)
  /-- The bytes of an answer do not divide into records. -/
  | sizeMismatch (kind : RecordKind) (held size : Nat)
  /-- Records or memory were not provided. -/
  | provider (fault : ProviderFault)
  /-- A text is no platform configuration. -/
  | malformedConfig
deriving DecidableEq, Repr

/-! ### Wording -/

/-- The wording of a fault of an argument. -/
def ArgumentFault.message : ArgumentFault → String
  | notHexDigit value => "0x" ++ Text.hex value.toNat ++ " is not a hex digit"
  | notPnpId id => s!"\"{id}\" is not a valid PNP ID"
  | mixedAnchor name => s!"name string \"{name}\" mixes root and parent prefix"
  | segmentCount count => s!"name string has {count} segments"
  | segmentLength segment => s!"NameSeg \"{segment}\" must have 1 to 4 characters"
  | segmentCharacter segment => s!"NameSeg \"{segment}\" contains invalid character"
  | nameless name => s!"\"{name}\" does not name an object"
  | emptyDescriptor => "empty resource data descriptor"
  | truncatedDescriptor tag held =>
    "large resource descriptor 0x" ++ Text.hex tag.toNat ++ s!" truncated to {held} bytes"
  | descriptorSize declared held =>
    s!"resource descriptor declares {declared} bytes but holds {held}"
  | endTagBody size => s!"End Tag with {size} body bytes"
  | interruptCount count => s!"interrupt count {count} is out of range 1..=255"
  | interruptMismatch announced listed =>
    s!"interrupt count {announced} mismatches list of {listed} interrupts"
  | notInterrupt tag =>
    "descriptor 0x" ++ Text.hex tag.toNat ++ " is not an extended interrupt"
  | interruptBody => "extended interrupt body too short"
  | interruptTable declared held =>
    s!"extended interrupt declares {declared} interrupts but holds {held} bytes"
  | emptyData type => "empty " ++ type.text ++ " data node"
  | objectName opcode name =>
    "cannot create " ++ opcode.text ++ " object with name " ++ Text.quotedOption name
  | stated text => text

/-- The wording of a fault of a parameter. -/
def ParameterFault.message : ParameterFault → String
  | notRegion node => s!"node {node} is neither a Scope nor a Device"
  | notName node => s!"node {node} is not a Name object"
  | noTemplate node => s!"Name object {node} does not hold a resource template"
  | interruptCount count => s!"{count} interrupts, expected 1 to 255"
  | unprintable text => s!"\"{text}\" is not a printable AML string"
  | notHardwareId id => s!"\"{id}\" is neither a PNP ID nor an ACPI ID"
  | wrongKind asked got => "asked for " ++ asked.text ++ ", got " ++ got.text
  | stated text => text

/-- The wording of a state that does not allow a request. -/
def StateFault.message : StateFault → String
  | notValue node => s!"node {node} cannot be the value of a Name"
  | attached node parent => s!"node {node} is already attached to {parent}"
  | attachCycle node parent => s!"attaching {node} under {parent} would create a cycle"
  | replaceCycle node parent => s!"replacing with {node} under {parent} would create a cycle"
  | misfit node opcode parent =>
    s!"node {node} cannot be a child of " ++ opcode.text ++ s!" node {parent}"
  | dataParent parent => s!"data node {parent} cannot have children"
  | notBuffer node => s!"node {node} is not a Buffer object"
  | secondEndTag buffer => s!"buffer {buffer} already ends with an End Tag"
  | detached node => s!"node {node} is not attached"
  | fixedArgument node parent =>
    s!"node {node} is a fixed argument of {parent}, replace it instead"
  | unlinked node parent => s!"node {node} is not linked from its parent {parent}"
  | endTagReplacement => "End Tag can only be replaced by another End Tag"
  | notNameString node => s!"node {node} is not a NameString"
  | stated text => text

/-- The wording of what was not provided. -/
def ProviderFault.message : ProviderFault → String
  | stated text => text
  | memory size => s!"Failed to reserve {size} bytes for AML node."

/-- What an error says. -/
def Error.message : Error → String
  | argument fault => "Invalid argument: " ++ fault.message ++ "."
  | parameter fault => "Invalid parameter: " ++ fault.message ++ "."
  | state fault => "Invalid state: " ++ fault.message ++ "."
  | deadNode node => s!"AML node {node} does not exist or has been deleted."
  | notFound kind => "Configuration manager object " ++ kind.text ++ " not found."
  | sizeMismatch kind held size =>
    "Configuration manager object " ++ kind.text ++
      s!": buffer size {held} mismatches object size {size}."
  | provider fault => fault.message
  | malformedConfig => "Failed to parse platform config"

end AcpiTables
