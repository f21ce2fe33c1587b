import AcpiTables.Tree.Basic

/-!
# Memory

A node takes memory: for its bytes, if it holds some, and for a slot, unless there is an
empty one. Whether there is any is not up to the tree. It is asked for at the time, and
the answer may be another one each time, so a request that makes nodes is made under an
`AcpiTables.Memory`.

Nothing needs to be said of memory where it does not run out. Then it is ample,
`AcpiTables.Memory.ample`.
-/

namespace AcpiTables

/-- **The memory that there is** while a request is made. The answers are given to a tree,
which is never the same for two questions of one request. -/
class Memory where
  /-- Whether there is room for one more slot. -/
  hasSlot : Tree → Bool
  /-- Whether there is room for a number of bytes. -/
  hasBytes : Tree → Nat → Bool
  /-- How many bytes a slot takes. -/
  slotSize : Nat

/-- Memory that does not run out: there is room for all bytes, and a slot takes none. -/
@[reducible]
def Memory.ample : Memory where
  hasSlot _ := true
  hasBytes _ _ := true
  slotSize := 0

/-- Memory is ample where nothing is said of it. -/
instance : Memory := .ample

namespace Tree

variable [memory : Memory]

/-- Asks that there is memory for bytes. -/
def requireBytes (size : Nat) (t : Tree) : Except Error Unit :=
  if memory.hasBytes t size then .ok () else .error (.provider (.memory size))

/-- Asks that there is a slot for a node: an empty one, or memory for a new one. -/
def requireSlot (t : Tree) : Except Error Unit :=
  if t.free.isEmpty && !memory.hasSlot t then .error (.provider (.memory memory.slotSize))
  else .ok ()

end Tree

end AcpiTables
