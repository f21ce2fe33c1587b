import AcpiTables.Log.Entry
import AcpiTables.Resource.Interrupt
import AcpiTables.Text.Quoted
import AcpiTables.Tree.Edit

/-!
# Assembling objects

A device tree is assembled from whole declarations: a `Name` with a value, a `Scope`,
a `Device`, an interrupt in a list of resources. Each request here makes all nodes of
one declaration, and attaches the declaration if a parent is given.

**A request succeeds as a whole or not at all.** The parent and the plain arguments
are looked at before a node is made. When a later step fails, the nodes made so far
are deleted again, so that the tree holds what it held before. Should a deletion
fail in turn, that is told in the log and the first failure is reported.
-/

namespace AcpiTables

/-- A tree at work, and what was told about the work. -/
structure Workbench where
  /-- The nodes. -/
  tree : Tree
  /-- The entries told so far, the first first. -/
  log : List Log.Entry
deriving DecidableEq, Repr

/-- A request at the workbench. -/
abbrev AssemblyM := EStateM Error Workbench

namespace Assembly

/-! ### Steps -/

/-- A request to the tree. -/
def onTree {α : Type} (request : TreeM α) : AssemblyM α := fun w =>
  match request w.tree with
  | .ok a tree => .ok a { w with tree }
  | .error e tree => .error e { w with tree }

/-- Asks a question about the tree. -/
def ask {α : Type} (question : Tree → Except Error α) : AssemblyM α :=
  onTree (Tree.ask question)

/-- Tells something. -/
def tell (level : Log.Level) (message : String) : AssemblyM Unit :=
  modifyGet fun w => ((), { w with log := w.log ++ [⟨level, message⟩] })

/-- Deletes a node that is of no use any more. -/
def discard (h : Handle) : AssemblyM Unit :=
  tryCatch (onTree (Tree.delete h)) fun e =>
    tell .error (s!"Failed to free AML node {h}: " ++ e.message)

/-- Makes a request, and discards a node if the request fails. -/
def orDiscard {α : Type} (h : Handle) (request : AssemblyM α) : AssemblyM α :=
  tryCatch request fun e => do
    discard h
    throw e

/-- Attaches a node under a parent, if one is given, or else discards it. -/
def attach (h : Handle) (parent : Option Handle) : AssemblyM Handle := do
  match parent with
  | none => return h
  | some parent =>
    orDiscard h (onTree (Tree.attach parent h))
    return h

/-- Asks that a parent, if one is given, is a region. -/
def requireParent (t : Tree) : Option Handle → Except Error Unit
  | none => .ok ()
  | some parent =>
    if t.hasOpcode parent (.region .scope) || t.hasOpcode parent (.region .device) then .ok ()
    else .error (.parameter (.notRegion parent))

/-! ### Resources -/

/-- The buffer that is the value of a `Name`. -/
def templateBuffer (t : Tree) (name : Handle) : Except Error Handle := do
  if !t.hasOpcode name .name then .error (.parameter (.notName name))
  match ← t.argument name 1 with
  | some buffer =>
    if t.hasOpcode buffer .buffer then return buffer
    else .error (.parameter (.noTemplate name))
  | none => .error (.parameter (.noTemplate name))

/-- Adds a descriptor to the resources of a `Name`, if one is given, or else discards
it. -/
def linkDescriptor (descriptor : Handle) (name : Option Handle) : AssemblyM Unit := do
  match name with
  | none => return ()
  | some name =>
    orDiscard descriptor do
      let buffer ← ask fun t => templateBuffer t name
      onTree (Tree.appendDescriptor buffer descriptor)

/-- Makes an extended interrupt descriptor, and adds it to the resources of a `Name`
if one is given. -/
def addInterrupt [Memory] (signalling : Resource.Signalling) (numbers : List UInt32)
    (name : Option Handle) : AssemblyM Handle := do
  if numbers.isEmpty || Resource.maxInterrupts < numbers.length then
    throw (.parameter (.interruptCount numbers.length))
  match name with
  | none => pure ()
  | some name =>
    let _ ← ask fun t => templateBuffer t name
  let bytes ← ask fun _ =>
    Resource.Interrupt.encodeCounted signalling numbers (UInt8.ofNat numbers.length)
  let descriptor ← onTree (Tree.makeData .resourceData bytes)
  linkDescriptor descriptor name
  tell .debug (s!"Generated Interrupt descriptor {descriptor} for " ++
    Text.listed (numbers.map UInt32.toNat))
  return descriptor

/-- Adds an extended interrupt descriptor to the resources of a `Name`. -/
def addResourceInterrupt [Memory] (name : Handle) (signalling : Resource.Signalling)
    (numbers : List UInt32) : AssemblyM Unit := do
  let _ ← addInterrupt signalling numbers (some name)

/-- Declares a list of resources that holds only its End Tag. -/
def declareTemplate [Memory] (name : String) (parent : Option Handle) : AssemblyM Handle := do
  ask fun t => requireParent t parent
  let buffer ← onTree Tree.makeBuffer
  let declaration ← orDiscard buffer do
    let endTag ← onTree (Tree.makeData .resourceData Resource.endTag)
    orDiscard endTag (onTree (Tree.attach buffer endTag))
    onTree (Tree.makeName name buffer)
  attach declaration parent

/-! ### Values -/

/-- Declares a `Name` with an encoded value. -/
def declareValue [Memory] (name : String) (value : Bytes) (parent : Option Handle) :
    AssemblyM Handle := do
  ask fun t => requireParent t parent
  let value ← onTree (Tree.makeData .raw value)
  let declaration ← orDiscard value (onTree (Tree.makeName name value))
  attach declaration parent

/-- Declares an integer. -/
def declareInteger [Memory] (name : String) (value : UInt64) (parent : Option Handle) :
    AssemblyM Handle :=
  declareValue name (Aml.integer value) parent

/-- The characters that a string object can hold: ASCII without the zero that ends the
string. -/
def isPrintable (c : Char) : Bool := 0 < c.toNat && c.toNat < 128

/-- Declares a string. -/
def declareString [Memory] (name value : String) (parent : Option Handle) : AssemblyM Handle := do
  if !value.toList.all isPrintable then throw (.parameter (.unprintable value))
  declareValue name (Aml.string value) parent

/-- The value that tells a hardware identifier: a PNP identifier is compressed, and an
ACPI identifier is a string. -/
def hardwareIdValue (id : String) : Except Error Bytes :=
  if HardwareId.isPnp id then Aml.eisaId id
  else if HardwareId.isAcpi id then .ok (Aml.string id)
  else .error (.parameter (.notHardwareId id))

/-- Declares the hardware identifier of a device. -/
def declareHardwareId [Memory] (id : String) (parent : Option Handle) : AssemblyM Handle := do
  let value ← ask fun _ => hardwareIdValue id
  declareValue "_HID" value parent

/-! ### Regions -/

/-- Declares a `Scope` or a `Device` without members. -/
def declareRegion [Memory] (kind : Region) (name : String) (parent : Option Handle) :
    AssemblyM Handle := do
  ask fun t => requireParent t parent
  let region ← onTree (Tree.makeRegion kind name)
  attach region parent

end Assembly

end AcpiTables
