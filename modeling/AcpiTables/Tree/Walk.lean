import AcpiTables.Aml.Declaration
import AcpiTables.Tree.Basic

/-!
# Walks through a tree

From a node one goes up along the parents, to its **lineage**, or down along the links,
to its **subtree**. Neither way comes back to a node it has left, so no walk is longer
than the number of nodes, and that number bounds each walk here.

The bytes of an object are the bytes of its links, put together as its content says.
Two walks list the subtree itself: `AcpiTables.Tree.preorder` has an object before
its links, `AcpiTables.Tree.postorder` after them.
-/

namespace AcpiTables.Tree

/-! ### Upwards -/

/-- A handle and what is above it, at most `bound` nodes. -/
def lineageWithin (t : Tree) : Nat → Handle → List Handle
  | 0, _ => []
  | bound + 1, h =>
    match (t.find? h).bind Node.parent with
    | some above => h :: lineageWithin t bound above
    | none => [h]

/-- A handle, its parent, the parent's parent and so on. A handle without a node is
alone in its lineage. -/
def lineage (t : Tree) (h : Handle) : List Handle := t.lineageWithin (t.live + 1) h

/-- Whether a node is another node or above it. -/
def isAbove (t : Tree) (above below : Handle) : Bool := (t.lineage below).contains above

/-! ### Downwards -/

/-- A node and what is below it, each object before its links, at most `bound` levels. -/
def preorderWithin (t : Tree) : Nat → Handle → List Handle
  | 0, _ => []
  | bound + 1, h =>
    match t.find? h with
    | some node => h :: node.content.links.flatMap (preorderWithin t bound)
    | none => []

/-- The nodes of a subtree, each object before its links. -/
def preorder (t : Tree) (h : Handle) : List Handle := t.preorderWithin t.live h

/-- What is below a node and the node, each object after its links, at most `bound`
levels. -/
def postorderWithin (t : Tree) : Nat → Handle → List Handle
  | 0, _ => []
  | bound + 1, h =>
    match t.find? h with
    | some node => node.content.links.flatMap (postorderWithin t bound) ++ [h]
    | none => []

/-- The nodes of a subtree, each object after its links. -/
def postorder (t : Tree) (h : Handle) : List Handle := t.postorderWithin t.live h

/-! ### Bytes -/

/-- The bytes of a node from the bytes of its links. -/
def encodeContent (encode : Handle → Bytes) : Content → Bytes
  | .data _ bytes => bytes
  | .name label value => Aml.declaration (encode label) (encode value)
  | .buffer items => Aml.buffer (items.flatMap encode)
  | .region kind label members => Aml.regionOf kind (encode label) (members.flatMap encode)

/-- The bytes of a node and its subtree, at most `bound` levels deep. -/
def encodeWithin (t : Tree) : Nat → Handle → Bytes
  | 0, _ => []
  | bound + 1, h =>
    match t.find? h with
    | some node => encodeContent (encodeWithin t bound) node.content
    | none => []

/-- The bytes of a node and its subtree. -/
def encode (t : Tree) (h : Handle) : Except Error Bytes := do
  let _ ← t.node h
  return t.encodeWithin t.live h

/-! ### Declarations around nodes -/

/-- A `Name` whose value is a node. -/
def declareName (t : Tree) (name : String) (value : Handle) : Except Error Bytes := do
  let value ← t.encode value
  Aml.declareName name value

/-- A region whose members are nodes. -/
def declareRegion (t : Tree) (kind : Region) (name : String) (members : List Handle) :
    Except Error Bytes := do
  let label ← Aml.regionLabel kind name
  let members ← members.mapM t.encode
  return Aml.regionOf kind label members.flatten

end AcpiTables.Tree
