import AcpiTables.Tree.Memory
import AcpiTables.Tree.Walk

/-!
# Editing a tree

The requests that change a tree: making nodes, attaching and detaching them,
exchanging one for another, and deleting a subtree. Each asks first whether it is
allowed, and only then writes, in steps. A request that is not allowed leaves the tree as
it was. One that is allowed can still fail, if it makes nodes and there is no memory for
them. A label that was stored already is taken out again then, and all nodes are what
they were.

An object is attached under a region; a resource descriptor is attached under a
buffer, in front of the End Tag if the buffer has one. No node is attached twice, and
none below itself. The fixed arguments of an object come with it and never leave it
empty: one can only be exchanged for a node that fits its place.
-/

namespace AcpiTables

/-- A request that may change a tree, and may fail. -/
abbrev TreeM := EStateM Error Tree

namespace Tree

/-! ### Steps -/

/-- Asks a question about the tree. -/
def ask {α : Type} (question : Tree → Except Error α) : TreeM α := fun t =>
  match question t with
  | .ok a => .ok a t
  | .error e => .error e t

/-- Stores a detached node, if there is a slot for it. -/
def create [Memory] (content : Content) : TreeM Handle := do
  ask requireSlot
  modifyGet fun t => t.allocate content

/-- Makes a request, and takes a node out again if the request fails. -/
def orRelease {α : Type} (h : Handle) (request : TreeM α) : TreeM α :=
  tryCatch request fun e => do
    modifyGet fun t => ((), t.release h)
    throw e

/-- Changes a node. -/
def update (h : Handle) (f : Node → Node) : TreeM Unit := do
  let _ ← ask (·.node h)
  modifyGet fun t => ((), t.modify h f)

/-- Writes down the owner of a node. -/
def setOwner (h : Handle) (parent : Option Handle) : TreeM Unit :=
  update h fun node => { node with parent }

/-- Changes the children of a node that may have some. -/
def updateChildren (h : Handle) (f : List Handle → List Handle) : TreeM Unit := do
  match ← ask (·.content h) with
  | .data _ _ => throw (.state (.dataParent h))
  | _ => update h fun node => { node with content := node.content.mapChildren f }

/-! ### Conditions -/

/-- The owner of a node that has one. -/
def owner (t : Tree) (h : Handle) : Except Error Handle := do
  match ← t.parent h with
  | some parent => return parent
  | none => .error (.state (.detached h))

/-- Asks that a node has no owner. -/
def requireDetached (t : Tree) (h : Handle) : Except Error Unit := do
  match ← t.parent h with
  | none => return ()
  | some parent => .error (.state (.attached h parent))

/-- Asks that a node can be the value of a `Name`: a buffer or an encoded object. -/
def requireValue (t : Tree) (h : Handle) : Except Error Unit := do
  match ← t.content h with
  | .buffer _ => return ()
  | .data .raw _ => return ()
  | _ => .error (.state (.notValue h))

/-- Asks that a node can be a label. -/
def requireLabel (t : Tree) (h : Handle) : Except Error Unit := do
  match ← t.content h with
  | .data .nameString _ => return ()
  | _ => .error (.state (.notNameString h))

/-- Asks that what a parent is and what a node is allow the node to be a child. -/
def requireKinds (t : Tree) (parent h : Handle) : Except Error Unit := do
  let child ← t.content h
  let above ← t.content parent
  if above.accepts child then return ()
  match above.opcode with
  | some opcode => .error (.state (.misfit h opcode parent))
  | none => .error (.state (.dataParent parent))

/-- Asks that a node can become a child of a parent. -/
def requireAttachable (t : Tree) (parent h : Handle) : Except Error Unit := do
  t.requireDetached h
  if t.isAbove h parent then .error (.state (.attachCycle h parent))
  t.requireKinds parent h

/-! ### Making nodes -/

/-- Asks that bytes can be of a type. A resource descriptor has to be one, and the other
types have at least one byte. -/
def requireData (type : DataType) (bytes : Bytes) : Except Error Unit :=
  match type with
  | .resourceData => do
    let _ ← Resource.checkDescriptor bytes
    return ()
  | type => if bytes.isEmpty then .error (.argument (.emptyData type)) else .ok ()

/-- Makes a data node. -/
def makeData [Memory] (type : DataType) (bytes : Bytes) : TreeM Handle := do
  ask fun _ => requireData type bytes
  ask (requireBytes bytes.length)
  create (.data type bytes)

/-- Makes the label of a written name. -/
def makeLabel [Memory] (name : String) (allowRoot : Bool) : TreeM Handle := do
  let encoded ← ask fun _ => Aml.objectName name allowRoot
  makeData .nameString encoded

/-- Makes an empty buffer. -/
def makeBuffer [Memory] : TreeM Handle := create (.buffer [])

/-- Makes an empty region. Only a scope may be the root. -/
def makeRegion [Memory] (kind : Region) (name : String) : TreeM Handle := do
  let label ← makeLabel name (kind == .scope)
  let region ← orRelease label (create (.region kind label []))
  setOwner label (some region)
  return region

/-- Makes an empty object of an opcode: a buffer without a name, or a region with one. -/
def makeObject [Memory] (opcode : Opcode) (name : Option String) : TreeM Handle :=
  match opcode, name with
  | .buffer, none => makeBuffer
  | .region kind, some name => makeRegion kind name
  | opcode, name => throw (.argument (.objectName opcode name))

/-- Makes a `Name`, which takes over its value. -/
def makeName [Memory] (name : String) (value : Handle) : TreeM Handle := do
  ask (·.requireDetached value)
  ask (·.requireValue value)
  let label ← makeLabel name false
  let declaration ← orRelease label (create (.name label value))
  setOwner label (some declaration)
  setOwner value (some declaration)
  return declaration

/-! ### Attaching and detaching -/

/-- Adds an item behind all others, but in front of the last one if that is to stay
the last. -/
def insertItem (keepLast : Bool) (items : List Handle) (h : Handle) : List Handle :=
  if keepLast then items.dropLast ++ h :: items.getLast?.toList else items ++ [h]

/-- Asks that a resource descriptor can be added to a buffer, and tells whether the
buffer has an End Tag. -/
def requireAppendable (t : Tree) (buffer h : Handle) : Except Error Bool := do
  let endTag ← t.endTag? buffer
  t.requireAttachable buffer h
  if endTag.isSome && t.isEndTag h then .error (.state (.secondEndTag buffer))
  return endTag.isSome

/-- Attaches a resource descriptor as the last of a buffer, in front of the End Tag. -/
def appendDescriptor (buffer h : Handle) : TreeM Unit := do
  let hasEndTag ← ask fun t => t.requireAppendable buffer h
  updateChildren buffer fun items => insertItem hasEndTag items h
  setOwner h (some buffer)

/-- Attaches a node as the last child of a parent. -/
def attach (parent h : Handle) : TreeM Unit := do
  match ← ask (·.content parent) with
  | .buffer _ => appendDescriptor parent h
  | _ =>
    ask fun t => t.requireAttachable parent h
    updateChildren parent fun members => members ++ [h]
    setOwner h (some parent)

/-- The owner of a node that is a child. -/
def childOwner (t : Tree) (h : Handle) : Except Error Handle := do
  let parent ← t.owner h
  let children ← t.children parent
  if children.contains h then return parent
  else .error (.state (.fixedArgument h parent))

/-- Detaches a child from its parent. -/
def detach (h : Handle) : TreeM Unit := do
  let parent ← ask fun t => t.childOwner h
  updateChildren parent fun children => children.erase h
  setOwner h none

/-! ### Exchanging nodes -/

/-- Asks that a node can stand at the place of `old` in a parent. -/
def requirePosition (t : Tree) (parent old : Handle) (position : Position) (new : Handle) :
    Except Error Unit := do
  match position with
  | .child _ =>
    t.requireAttachable parent new
    if t.hasOpcode parent .buffer && t.isEndTag old != t.isEndTag new then
      .error (.state .endTagReplacement)
  | .label =>
    if t.isAbove new parent then .error (.state (.replaceCycle new parent))
    t.requireLabel new
  | .value =>
    if t.isAbove new parent then .error (.state (.replaceCycle new parent))
    t.requireValue new

/-- Asks that a node can take the place of another, and tells where that is. -/
def requireReplacement (t : Tree) (old new : Handle) : Except Error (Handle × Position) := do
  let parent ← t.owner old
  t.requireDetached new
  let content ← t.content parent
  match content.position? old with
  | none => .error (.state (.unlinked old parent))
  | some position =>
    t.requirePosition parent old position new
    return (parent, position)

/-- Puts a detached node where an attached one stands, which is detached thereby. -/
def replace (old new : Handle) : TreeM Unit := do
  let (parent, position) ← ask fun t => t.requireReplacement old new
  update parent fun node => { node with content := node.content.put new position }
  setOwner old none
  setOwner new (some parent)

/-! ### Deleting -/

/-- Deletes a detached node and its subtree, the node first and its links from the last
to the first. -/
def delete (h : Handle) : TreeM Unit := do
  ask (·.requireDetached h)
  modifyGet fun t => ((), (t.postorder h).foldr (fun h t => t.release h) t)

end Tree

end AcpiTables
