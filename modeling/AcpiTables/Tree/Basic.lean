import AcpiTables.Error
import AcpiTables.Resource.Header

/-!
# AML trees

The nodes of all AML objects under construction live in one `AcpiTables.Tree`: a
sequence of slots, each of which is empty or holds a node. A node refers to others by
their handles. It lists its **links**, the nodes it owns, and knows its parent.

The links of an object are its fixed arguments (the label and the value of a `Name`, the
label of a region) and its children (the descriptors of a buffer, the members of a
region). The shape of an object is in its type: no `Name` lacks a value, and no
buffer has a label.

A node without a parent is **detached**. It is reached by its handle alone, and
whoever holds the handle attaches the node or deletes it.

Slots are never given back. The free ones are stacked, and the slot that was freed last
is used first; its generation has grown by one, so an old handle denotes nothing.
-/

namespace AcpiTables

/-! ### Nodes -/

/-- A place in an object where a node can stand. -/
inductive Position where
  /-- The label of a `Name` or a region. -/
  | label
  /-- The value of a `Name`. -/
  | value
  /-- The children, counted from zero. -/
  | child (place : Nat)
deriving DecidableEq, Repr

/-- What a node is: bytes, or an object with its links. -/
inductive Content where
  /-- Bytes of a given type. -/
  | data (type : DataType) (bytes : Bytes)
  /-- A `Name`: its label and its value. -/
  | name (label value : Handle)
  /-- A `Buffer`: its descriptors. -/
  | buffer (items : List Handle)
  /-- A `Scope` or `Device`: its label and its members. -/
  | region (kind : Region) (label : Handle) (members : List Handle)
deriving DecidableEq, Repr

namespace Content

/-- The opcode of an object; data has none. -/
def opcode : Content → Option Opcode
  | data _ _ => none
  | name _ _ => some .name
  | buffer _ => some .buffer
  | region kind _ _ => some (.region kind)

/-- The type of data; an object has none. -/
def dataType : Content → Option DataType
  | data type _ => some type
  | _ => none

/-- The bytes of data; an object has none of its own. -/
def bytes : Content → Option Bytes
  | data _ bytes => some bytes
  | _ => none

/-- The fixed arguments, in order. -/
def fixedArguments : Content → List Handle
  | data _ _ => []
  | name label value => [label, value]
  | buffer _ => []
  | region _ label _ => [label]

/-- The children, in order. -/
def children : Content → List Handle
  | data _ _ => []
  | name _ _ => []
  | buffer items => items
  | region _ _ members => members

/-- All nodes that are owned, in the order in which they are written. -/
def links (c : Content) : List Handle := c.fixedArguments ++ c.children

/-- The same object with its children changed. What has no children keeps none. -/
def mapChildren (f : List Handle → List Handle) : Content → Content
  | buffer items => buffer (f items)
  | region kind label members => region kind label (f members)
  | c => c

/-- Where a node stands in an object. -/
def position? (h : Handle) : Content → Option Position
  | data _ _ => none
  | name label value =>
    if label = h then some .label else if value = h then some .value else none
  | buffer items => (items.idxOf? h).map .child
  | region _ label members =>
    if label = h then some .label else (members.idxOf? h).map .child

/-- The same object with another node at a place. -/
def put (h : Handle) : Position → Content → Content
  | .label, name _ value => name h value
  | .label, region kind _ members => region kind h members
  | .value, name label _ => name label h
  | .child place, c => c.mapChildren (·.set place h)
  | _, c => c

/-- Whether an object may have a child of a given content: a buffer holds resource
descriptors, and a region holds objects. -/
def accepts : Content → Content → Bool
  | buffer _, data .resourceData _ => true
  | region _ _ _, child => child.opcode.isSome
  | _, _ => false

/-- Whether the bytes are an End Tag. -/
def isEndTag : Content → Bool
  | data .resourceData bytes => Resource.startsWithEndTag bytes
  | _ => false

end Content

/-- A node: what it is, and which node owns it. -/
structure Node where
  /-- What the node is. -/
  content : Content
  /-- The owner, unless the node is detached. -/
  parent : Option Handle
deriving DecidableEq, Repr

/-- A place for a node. -/
structure Slot where
  /-- How many nodes of this slot have been freed. -/
  generation : UInt32
  /-- The node, if there is one. -/
  node : Option Node
deriving DecidableEq, Repr

/-! ### The arena -/

/-- The nodes of all objects under construction. -/
structure Tree where
  /-- All slots ever used. -/
  slots : List Slot
  /-- The places of the empty slots, the one freed last first. -/
  free : List UInt32
  /-- How many nodes there are. -/
  live : Nat
deriving DecidableEq, Repr

namespace Tree

/-- The tree without nodes. -/
def empty : Tree := ⟨[], [], 0⟩

/-- The node that a handle denotes. -/
def find? (t : Tree) (h : Handle) : Option Node := do
  let slot ← t.slots[h.index.toNat]?
  if slot.generation = h.generation then slot.node else none

/-- Whether a handle denotes a node. -/
def contains (t : Tree) (h : Handle) : Bool := (t.find? h).isSome

/-- Stores a detached node in the slot that was freed last, or in a new one. -/
def allocate (t : Tree) (content : Content) : Handle × Tree :=
  let node : Node := ⟨content, none⟩
  match t.free with
  | index :: free =>
    let generation := (t.slots[index.toNat]?.map Slot.generation).getD 0
    (⟨index, generation⟩,
      ⟨t.slots.set index.toNat ⟨generation, some node⟩, free, t.live + 1⟩)
  | [] =>
    (⟨UInt32.ofNat t.slots.length, 0⟩, ⟨t.slots ++ [⟨0, some node⟩], [], t.live + 1⟩)

/-- Changes the node that a handle denotes. -/
def modify (t : Tree) (h : Handle) (f : Node → Node) : Tree :=
  match t.find? h with
  | some node =>
    { t with slots := t.slots.set h.index.toNat ⟨h.generation, some (f node)⟩ }
  | none => t

/-- Empties the slot of the node that a handle denotes. -/
def release (t : Tree) (h : Handle) : Tree :=
  match t.find? h with
  | some _ =>
    ⟨t.slots.set h.index.toNat ⟨h.generation + 1, none⟩, h.index :: t.free, t.live - 1⟩
  | none => t

/-! ### What a handle denotes after a change -/

theorem find?_eq_some_iff {t : Tree} {h : Handle} {node : Node} :
    t.find? h = some node ↔ t.slots[h.index.toNat]? = some ⟨h.generation, some node⟩ := by
  unfold find?
  cases hs : t.slots[h.index.toNat]? with
  | none => simp
  | some slot =>
    obtain ⟨generation, held⟩ := slot
    by_cases hg : generation = h.generation <;> simp [hg]

theorem contains_iff {t : Tree} {h : Handle} :
    t.contains h = true ↔ ∃ node, t.find? h = some node :=
  Option.isSome_iff_exists

/-- A handle is its slot and its generation. -/
theorem index_ne_or_generation_ne {h h' : Handle} (hne : h' ≠ h) :
    h.index.toNat ≠ h'.index.toNat ∨
      h.index.toNat = h'.index.toNat ∧ h'.generation ≠ h.generation := by
  by_cases hi : h.index.toNat = h'.index.toNat
  · refine Or.inr ⟨hi, fun hg => hne ?_⟩
    have := UInt32.toNat_inj.mp hi
    cases h
    cases h'
    simp_all
  · exact Or.inl hi

/-- Changing a node changes what its handle denotes, and no other handle. -/
theorem find?_modify (t : Tree) (h h' : Handle) (f : Node → Node) :
    (t.modify h f).find? h' = if h' = h then (t.find? h).map f else t.find? h' := by
  unfold modify
  cases hn : t.find? h with
  | none =>
    by_cases he : h' = h
    · simp [he, hn]
    · simp [he]
  | some node =>
    have hslot := find?_eq_some_iff.mp hn
    have hlt : h.index.toNat < t.slots.length := (List.getElem?_eq_some_iff.mp hslot).1
    by_cases he : h' = h
    · subst he
      simp [find?, hlt]
    · rcases index_ne_or_generation_ne he with hi | ⟨hi, hg⟩
      · simp [find?, he, hi]
      · obtain ⟨hlt', hget⟩ := List.getElem?_eq_some_iff.mp (hi ▸ hslot)
        simp [find?, he, hi, hlt', hget, Ne.symm hg]

/-- Emptying a slot takes away what its handle denotes, and nothing else. -/
theorem find?_release (t : Tree) (h h' : Handle) :
    (t.release h).find? h' = if h' = h then none else t.find? h' := by
  unfold release
  cases hn : t.find? h with
  | none =>
    by_cases he : h' = h
    · simp [he, hn]
    · simp [he]
  | some node =>
    have hslot := find?_eq_some_iff.mp hn
    have hlt : h.index.toNat < t.slots.length := (List.getElem?_eq_some_iff.mp hslot).1
    by_cases he : h' = h
    · subst he
      simp [find?, hlt]
    · rcases index_ne_or_generation_ne he with hi | ⟨hi, hg⟩
      · simp [find?, he, hi]
      · obtain ⟨hlt', hget⟩ := List.getElem?_eq_some_iff.mp (hi ▸ hslot)
        simp [find?, he, hi, hlt', hget, Ne.symm hg]

/-! ### Questions -/

/-- The node that a handle denotes, of which there has to be one. -/
def node (t : Tree) (h : Handle) : Except Error Node :=
  match t.find? h with
  | some node => .ok node
  | none => .error (.deadNode h)

/-- The content of a node. -/
def content (t : Tree) (h : Handle) : Except Error Content := Node.content <$> t.node h

/-- The opcode of a node, if it is an object. -/
def opcode (t : Tree) (h : Handle) : Except Error (Option Opcode) :=
  Content.opcode <$> t.content h

/-- Whether a handle denotes an object with a given opcode. -/
def hasOpcode (t : Tree) (h : Handle) (opcode : Opcode) : Bool :=
  match t.find? h with
  | some node => node.content.opcode == some opcode
  | none => false

/-- The type of a node's bytes, if it is data. -/
def dataType (t : Tree) (h : Handle) : Except Error (Option DataType) :=
  Content.dataType <$> t.content h

/-- The bytes of a node, if it is data. -/
def bytes (t : Tree) (h : Handle) : Except Error (Option Bytes) :=
  Content.bytes <$> t.content h

/-- The fixed argument of a node at a place, if there is one. -/
def argument (t : Tree) (h : Handle) (place : Nat) : Except Error (Option Handle) :=
  (fun c => c.fixedArguments[place]?) <$> t.content h

/-- The children of a node. -/
def children (t : Tree) (h : Handle) : Except Error (List Handle) :=
  Content.children <$> t.content h

/-- The owner of a node, if it has one. -/
def parent (t : Tree) (h : Handle) : Except Error (Option Handle) :=
  Node.parent <$> t.node h

/-- Whether a handle denotes an End Tag. -/
def isEndTag (t : Tree) (h : Handle) : Bool :=
  match t.find? h with
  | some node => node.content.isEndTag
  | none => false

/-- The End Tag that closes a buffer, if there is one. Only the last child can be. -/
def endTag? (t : Tree) (buffer : Handle) : Except Error (Option Handle) := do
  match ← t.content buffer with
  | .buffer items => return items.getLast?.filter t.isEndTag
  | _ => .error (.state (.notBuffer buffer))

end Tree

end AcpiTables
