import AcpiTables.Proofs.Aml.Object
import AcpiTables.Proofs.Tree.Sound

/-!
# The object that stands in a tree

A node with all that is below it is an object: `AcpiTables.Tree.subtree?` collects it, each
part at its place. The bytes of the node are the bytes of that object
(`AcpiTables.Tree.exists_subtree`), so that whatever is true of objects and their
bytes is true of the nodes of a tree.

The parts are lawful where all data comes from declarations, which is what
`AcpiTables.Kind.IsGenerated` says of a node.
-/

namespace AcpiTables

/-- Data such as declarations make: names, encoded values and descriptors. -/
def Kind.IsGenerated : Kind → Prop
  | .data .nameString bytes => Aml.IsName bytes
  | .data .raw bytes => Aml.IsEncoded bytes
  | .data .resourceData bytes => ∃ header, Resource.checkDescriptor bytes = .ok header
  | .object _ => True

/-! ### Questions asked of a list -/

section MapM

variable {α β : Type} {f g : α → Option β} {xs : List α}

/-- Questions that all have an answer have a list of answers. -/
theorem exists_mapM {Q : α → β → Prop} (hf : ∀ x ∈ xs, ∃ y, f x = some y ∧ Q x y) :
    ∃ ys, xs.mapM f = some ys ∧ List.Forall₂ Q xs ys := by
  induction xs with
  | nil => exact ⟨[], rfl, .nil⟩
  | cons x xs ih =>
    obtain ⟨y, hy, hQ⟩ := hf x List.mem_cons_self
    obtain ⟨ys, hys, hall⟩ := ih fun z hz => hf z (List.mem_cons_of_mem x hz)
    exact ⟨y :: ys, by rw [List.mapM_cons, hy, hys]; rfl, .cons hQ hall⟩

theorem mapM_congr_of_mem (hfg : ∀ x ∈ xs, f x = g x) : xs.mapM f = xs.mapM g := by
  induction xs with
  | nil => rfl
  | cons x xs ih =>
    rw [List.mapM_cons, List.mapM_cons, hfg x List.mem_cons_self,
      ih fun z hz => hfg z (List.mem_cons_of_mem x hz)]

end MapM

namespace Tree

variable {t : Tree} {h : Handle} {node : Node}

/-! ### Collecting an object -/

/-- The bytes of a data node. -/
def dataBytes? (t : Tree) (h : Handle) : Option Bytes :=
  (t.find? h).bind fun node => node.content.bytes

/-- The value that a node is. -/
def value? (t : Tree) (h : Handle) : Option Aml.Value := do
  match (← t.find? h).content with
  | .data .raw bytes => return .encoded bytes
  | .buffer items => return .buffer (← items.mapM t.dataBytes?)
  | _ => none

/-- The object that a node is, from the objects that its members are. -/
def collect (t : Tree) (member? : Handle → Option (Aml.Object Bytes)) :
    Content → Option (Aml.Object Bytes)
  | .data _ _ => none
  | .name label value => do return .name (← t.dataBytes? label) (← t.value? value)
  | .buffer items => do return .buffer (← items.mapM t.dataBytes?)
  | .region kind label members => do
    return .region kind (← t.dataBytes? label) (← members.mapM member?)

/-- The object that a node is, at most `bound` levels deep. -/
def subtreeWithin (t : Tree) : Nat → Handle → Option (Aml.Object Bytes)
  | 0, _ => none
  | bound + 1, h => do t.collect (subtreeWithin t bound) (← t.find? h).content

/-- **The object that a node is**, with all that is below it. -/
def subtree? (t : Tree) (h : Handle) : Option (Aml.Object Bytes) := t.subtreeWithin t.live h

theorem collect_congr {f g : Handle → Option (Aml.Object Bytes)} {content : Content}
    (hfg : ∀ x ∈ content.links, f x = g x) : t.collect f content = t.collect g content := by
  cases content with
  | data type bytes => rfl
  | name label value => rfl
  | buffer items => rfl
  | region kind label members =>
    have hm : members.mapM f = members.mapM g :=
      mapM_congr_of_mem fun x hx => hfg x (List.mem_cons_of_mem label hx)
    rw [collect, collect, hm]

/-- What is collected at a node. -/
theorem Ordered.subtree?_eq (ho : t.Ordered) (hn : t.find? h = some node) :
    t.subtree? h = t.collect t.subtree? node.content := by
  have hstep : ∀ h node m m', t.find? h = some node →
      (∀ x ∈ node.content.links, t.subtreeWithin m x = t.subtreeWithin m' x) →
      t.subtreeWithin (m + 1) h = t.subtreeWithin (m' + 1) h := by
    intro h node m m' hn hlinks
    simp only [subtreeWithin, hn, Option.bind_eq_bind, Option.bind_some]
    exact collect_congr hlinks
  rw [subtree?, ho.walk_live_eq hstep hn]
  simp only [subtreeWithin, hn, Option.bind_eq_bind, Option.bind_some]
  rfl

/-- Only an object node is an object. -/
theorem exists_node_of_subtree? {o : Aml.Object Bytes} (hsub : t.subtree? h = some o) :
    ∃ node, t.find? h = some node ∧ node.content.opcode.isSome := by
  unfold subtree? at hsub
  cases hlive : t.live with
  | zero =>
    rw [hlive] at hsub
    exact nomatch hsub
  | succ bound =>
    rw [hlive, subtreeWithin] at hsub
    obtain ⟨node, hn, hcollect⟩ := Option.bind_eq_some_iff.mp hsub
    refine ⟨node, hn, ?_⟩
    cases hc : node.content with
    | data type bytes =>
      rw [hc] at hcollect
      exact nomatch hcollect
    | name label value => rfl
    | buffer items => rfl
    | region kind label members => rfl

/-! ### The parts of an object -/

namespace Sound

variable {P : Kind → Prop}

/-- The bytes of a data node are the bytes of the data. -/
theorem data_eq (hs : t.Sound P) {type : DataType} {bytes : Bytes} (hn : t.find? h = some node)
    (hc : node.content = .data type bytes) :
    t.dataBytes? h = some bytes ∧ t.bytesOf h = bytes ∧ P (.data type bytes) := by
  have hP := hs.allowed h node hn
  rw [dataBytes?, hn, Option.bind_some, hs.bytesOf_eq hn, hc]
  rw [hc] at hP
  exact ⟨rfl, rfl, hP⟩

end Sound

/-- The members of a region are objects if each is one. -/
theorem exists_members {members : List Handle}
    (hm : ∀ x ∈ members, ∃ o, t.subtree? x = some o ∧ o.encode = t.bytesOf x ∧ o.Lawful) :
    ∃ os, members.mapM t.subtree? = some os ∧
      Aml.Object.encodeAll os = members.flatMap t.bytesOf ∧ ∀ o ∈ os, o.Lawful := by
  obtain ⟨os, hos, hall⟩ := exists_mapM hm
  refine ⟨os, hos, ?_⟩
  clear hos hm
  induction hall with
  | nil => exact ⟨rfl, nofun⟩
  | cons ho hall ih =>
    refine ⟨?_, fun o hmem => ?_⟩
    · rw [Aml.Object.encodeAll, List.flatMap_cons, ho.1, ih.1]
    · rcases List.mem_cons.mp hmem with rfl | hmem
      · exact ho.2
      · exact ih.2 o hmem

variable (hs : t.Sound Kind.IsGenerated)

include hs

theorem exists_label (hk : (t.kind? h).any Kind.isLabel = true) :
    ∃ bytes, t.dataBytes? h = some bytes ∧ t.bytesOf h = bytes ∧ Aml.IsName bytes := by
  obtain ⟨⟨content, parent⟩, hn, hlabel⟩ := any_kind?_iff.mp hk
  match content with
  | .data .nameString bytes => exact ⟨bytes, hs.data_eq hn rfl⟩

theorem exists_descriptor (hk : (t.kind? h).any Kind.isDescriptor = true) :
    ∃ bytes, t.dataBytes? h = some bytes ∧ t.bytesOf h = bytes ∧
      ∃ header, Resource.checkDescriptor bytes = .ok header := by
  obtain ⟨⟨content, parent⟩, hn, hdescriptor⟩ := any_kind?_iff.mp hk
  match content with
  | .data .resourceData bytes => exact ⟨bytes, hs.data_eq hn rfl⟩

/-- The items of a buffer are descriptors. -/
theorem exists_descriptors {items : List Handle}
    (hi : ∀ x ∈ items, (t.kind? x).any Kind.isDescriptor = true) :
    ∃ ds, items.mapM t.dataBytes? = some ds ∧ ds.flatten = items.flatMap t.bytesOf ∧
      Aml.AreDescriptors ds := by
  obtain ⟨ds, hds, hall⟩ := exists_mapM fun x hx => exists_descriptor hs (hi x hx)
  refine ⟨ds, hds, ?_⟩
  clear hds hi
  induction hall with
  | nil => exact ⟨rfl, nofun⟩
  | cons hd hall ih =>
    refine ⟨?_, fun d hmem => ?_⟩
    · rw [List.flatten_cons, List.flatMap_cons, hd.1, ih.1]
    · rcases List.mem_cons.mp hmem with rfl | hmem
      · exact hd.2
      · exact ih.2 d hmem

/-- The value of a `Name` is one. -/
theorem exists_value (hk : (t.kind? h).any Kind.isValue = true) :
    ∃ value, t.value? h = some value ∧ value.encode = t.bytesOf h ∧ value.Lawful := by
  obtain ⟨⟨content, parent⟩, hn, hvalue⟩ := any_kind?_iff.mp hk
  match content with
  | .data .raw bytes =>
    obtain ⟨-, hbytes, hencoded⟩ := hs.data_eq hn rfl
    refine ⟨.encoded bytes, ?_, hbytes.symm, hencoded⟩
    simp only [value?, hn, Option.bind_eq_bind, Option.bind_some, Option.pure_def]
  | .buffer items =>
    obtain ⟨ds, hds, hflat, hare⟩ := exists_descriptors hs (hs.shaped h _ hn).1
    refine ⟨.buffer ds, ?_, ?_, hare⟩
    · simp only [value?, hn, hds, Option.bind_eq_bind, Option.bind_some, Option.pure_def]
    · rw [hs.bytesOf_eq hn, encodeContent, ← hflat]
      rfl

/-- **Every object node is a lawful object**, and its bytes are the bytes of the object. -/
theorem exists_subtree (hn : t.find? h = some node) (ho : node.content.opcode.isSome) :
    ∃ o, t.subtree? h = some o ∧ o.encode = t.bytesOf h ∧ o.Lawful := by
  refine hs.induction_links (P := fun h => ∀ node, t.find? h = some node →
    node.content.opcode.isSome → ∃ o, t.subtree? h = some o ∧ o.encode = t.bytesOf h ∧ o.Lawful)
    ?_ hn node hn ho
  clear hn ho
  intro h node hn ih node' hn' ho
  obtain rfl := Option.some.inj (hn.symm.trans hn')
  have hshape := hs.shaped h node hn
  rw [hs.subtree?_eq hn, hs.bytesOf_eq hn]
  cases hc : node.content with
  | data type bytes =>
    rw [hc] at ho
    exact nomatch ho
  | name label value =>
    rw [hc] at hshape
    obtain ⟨lb, hl, hlb, hname⟩ := exists_label hs hshape.1
    obtain ⟨v, hv, hvb, hvalue⟩ := exists_value hs hshape.2
    refine ⟨.name lb v, ?_, ?_, .name hname hvalue⟩
    · simp only [collect, hl, hv, Option.bind_eq_bind, Option.bind_some, Option.pure_def]
    · rw [encodeContent, hlb, ← hvb, Aml.Object.encode]
  | buffer items =>
    rw [hc] at hshape
    obtain ⟨ds, hds, hflat, hare⟩ := exists_descriptors hs hshape.1
    refine ⟨.buffer ds, ?_, ?_, .buffer hare⟩
    · simp only [collect, hds, Option.bind_eq_bind, Option.bind_some, Option.pure_def]
    · rw [encodeContent, ← hflat, Aml.Object.encode]
  | region kind label members =>
    rw [hc] at hshape ih
    obtain ⟨lb, hl, hlb, hname⟩ := exists_label hs hshape.1
    have hmembers : ∀ x ∈ members,
        ∃ o, t.subtree? x = some o ∧ o.encode = t.bytesOf x ∧ o.Lawful := fun x hx => by
      obtain ⟨below, hb, hobject⟩ := any_kind?_iff.mp (hshape.2 x hx)
      refine ih x (List.mem_cons_of_mem label hx) below hb ?_
      cases hbc : below.content <;> simp_all [Content.kind, Kind.isObject, Content.opcode]
    obtain ⟨os, hos, hflat, hlawful⟩ := exists_members hmembers
    refine ⟨.region kind lb os, ?_, ?_, .region hname hlawful⟩
    · simp only [collect, hl, hos, Option.bind_eq_bind, Option.bind_some, Option.pure_def]
    · rw [encodeContent, hlb, ← hflat, Aml.Object.encode]

end Tree

end AcpiTables
