import AcpiTables.Proofs.Aml.Written
import AcpiTables.Proofs.Tree.Sound

/-!
# Objects that stand in a tree

An object whose names are written down stands at a node if the node and what is below it
are its parts: `AcpiTables.Aml.Object.Stands` goes through the object and asks for a node
for each part. How the nodes were made, and in which order, does not matter.

What stands in a tree has the bytes that builders write
(`AcpiTables.Aml.Object.Stands.write_eq`). It keeps standing as long as no node that it
consists of changes (`AcpiTables.Aml.Object.Stands.congr`). All of these nodes but the first
have an owner, so that nothing has to be known about where they are: it is enough that
nodes with an owner are spared.
-/

namespace AcpiTables

/-! ### Parts of an object -/

/-- A data node of given bytes. -/
def Tree.HasData (t : Tree) (type : DataType) (bytes : Bytes) (h : Handle) : Prop :=
  ∃ parent, t.find? h = some ⟨.data type bytes, parent⟩

namespace Aml

/-- A value stands at a node. -/
def Value.Stands (t : Tree) (h : Handle) : Value → Prop
  | encoded bytes => t.HasData .raw bytes h
  | buffer descriptors => ∃ items parent, t.find? h = some ⟨.buffer items, parent⟩ ∧
      List.Forall₂ (t.HasData .resourceData) descriptors items

mutual

/-- **An object stands at a node.** -/
def Object.Stands (t : Tree) : Object String → Handle → Prop
  | .name written value, h => ∃ label below parent bytes,
      t.find? h = some ⟨.name label below, parent⟩ ∧ objectName written false = .ok bytes ∧
        t.HasData .nameString bytes label ∧ value.Stands t below
  | .buffer descriptors, h => (Value.buffer descriptors).Stands t h
  | .region kind written members, h => ∃ label below parent bytes,
      t.find? h = some ⟨.region kind label below, parent⟩ ∧ regionLabel kind written = .ok bytes ∧
        t.HasData .nameString bytes label ∧ StandAll t members below

/-- Several objects stand at several nodes, in order. -/
def Object.StandAll (t : Tree) : List (Object String) → List Handle → Prop
  | [], [] => True
  | o :: os, h :: hs => o.Stands t h ∧ StandAll t os hs
  | _, _ => False

end

end Aml

/-! ### Other trees -/

namespace Tree

/-- A node that has the same content in another tree, if it is there. -/
def SameContent (t t' : Tree) (h : Handle) : Prop :=
  ∀ node, t.find? h = some node → ∃ node', t'.find? h = some node' ∧ node'.content = node.content

/-- The content of a node that has an owner is the same in another tree. -/
def Spares (t t' : Tree) : Prop := ∀ x p, View.Parent t.find? x p → t.SameContent t' x

variable {t t' : Tree} {h p : Handle} {content : Content} {node : Node}

/-- Only a detached node is changed. -/
theorem spares_of_detached (hp : t.find? p = some ⟨content, none⟩)
    (hsame : ∀ x, x ≠ p → t.SameContent t' x) : t.Spares t' := by
  intro x q hx
  refine hsame x ?_
  rintro rfl
  exact View.not_parent_of_detached hp rfl hx

/-- The links of a node are spared. -/
theorem Spares.sameContent (hsp : t.Spares t') (hf : View.Forest t.find?)
    (hn : t.find? h = some node) {x : Handle} (hx : x ∈ node.content.links) :
    t.SameContent t' x := hsp x h (hf.parent_of_mem hn hx)

/-- **The bytes of a node are those of its subtree**: they are the same in another tree if nothing
in the subtree has another content there. -/
theorem Ordered.bytesOf_congr (ho : t.Ordered) (ho' : t'.Ordered) (hn : t.find? h = some node)
    (hsame : ∀ x, View.Above t.find? h x → t.SameContent t' x) : t'.bytesOf h = t.bytesOf h := by
  refine ho.induction_links (P := fun h => (∀ x, View.Above t.find? h x → t.SameContent t' x) →
    t'.bytesOf h = t.bytesOf h) (fun h node hn ih hsame => ?_) hn hsame
  obtain ⟨node', hn', hc⟩ := hsame h Relation.ReflTransGen.refl node hn
  rw [ho.bytesOf_eq hn, ho'.bytesOf_eq hn', hc]
  refine encodeContent_congr fun x hx => ih x hx fun y hy => hsame y ?_
  exact Relation.ReflTransGen.tail hy (ho.forest.parent_of_mem hn hx)

theorem HasData.congr {type : DataType} {bytes : Bytes} (hd : t.HasData type bytes h)
    (hsame : t.SameContent t' h) : t'.HasData type bytes h := by
  obtain ⟨parent, hn⟩ := hd
  obtain ⟨⟨content, parent'⟩, hn', rfl⟩ := hsame _ hn
  exact ⟨parent', hn'⟩

end Tree

namespace Aml

variable {t t' : Tree} {h : Handle}

theorem Value.Stands.congr {value : Value} (hv : value.Stands t h) (hf : View.Forest t.find?)
    (hsp : t.Spares t') (hsame : t.SameContent t' h) : value.Stands t' h := by
  cases value with
  | encoded bytes => exact Tree.HasData.congr hv hsame
  | buffer ds =>
    obtain ⟨items, parent, hn, hall⟩ := hv
    obtain ⟨⟨content, parent'⟩, hn', rfl⟩ := hsame _ hn
    refine ⟨items, parent', hn', ?_⟩
    have hitems : ∀ x ∈ items, t.SameContent t' x := fun x hx => hsp.sameContent hf hn hx
    clear hn hn' hsame
    induction hall with
    | nil => exact .nil
    | cons hd hall ih =>
      refine .cons (hd.congr (hitems _ List.mem_cons_self)) (ih fun x hx => ?_)
      exact hitems x (List.mem_cons_of_mem _ hx)

mutual

/-- **An object keeps standing** as long as no node that it consists of changes. -/
theorem Object.Stands.congr (hf : View.Forest t.find?) (hsp : t.Spares t') :
    ∀ {o : Object String} {h : Handle}, o.Stands t h → t.SameContent t' h → o.Stands t' h
  | .name written value, h, ho, hsame => by
    rw [Object.Stands] at ho ⊢
    obtain ⟨label, below, parent, bytes, hn, hname, hlabel, hvalue⟩ := ho
    obtain ⟨⟨content, parent'⟩, hn', rfl⟩ := hsame _ hn
    refine ⟨label, below, parent', bytes, hn', hname, hlabel.congr ?_, hvalue.congr hf hsp ?_⟩
    · exact hsp.sameContent hf hn (by simp)
    · exact hsp.sameContent hf hn (by simp)
  | .buffer ds, h, ho, hsame => by
    rw [Object.Stands] at ho ⊢
    exact ho.congr hf hsp hsame
  | .region kind written members, h, ho, hsame => by
    rw [Object.Stands] at ho ⊢
    obtain ⟨label, below, parent, bytes, hn, hname, hlabel, hall⟩ := ho
    obtain ⟨⟨content, parent'⟩, hn', rfl⟩ := hsame _ hn
    refine ⟨label, below, parent', bytes, hn', hname, hlabel.congr ?_, ?_⟩
    · exact hsp.sameContent hf hn (by simp)
    · refine Object.StandAll.congr hf hsp hall fun x hx => hsp.sameContent hf hn ?_
      exact List.mem_cons_of_mem label hx

theorem Object.StandAll.congr (hf : View.Forest t.find?) (hsp : t.Spares t') :
    ∀ {os : List (Object String)} {hs : List Handle}, Object.StandAll t os hs →
      (∀ x ∈ hs, t.SameContent t' x) → Object.StandAll t' os hs
  | [], [], _, _ => trivial
  | o :: os, h :: hs, hall, hsame => by
    rw [Object.StandAll] at hall ⊢
    refine ⟨Object.Stands.congr hf hsp hall.1 (hsame h List.mem_cons_self), ?_⟩
    exact Object.StandAll.congr hf hsp hall.2 fun x hx => hsame x (List.mem_cons_of_mem h hx)

end

/-! ### Bytes -/

theorem Value.Stands.exists_node {value : Value} (hv : value.Stands t h) :
    ∃ node, t.find? h = some node := by
  cases value with
  | encoded bytes =>
    obtain ⟨parent, hn⟩ := hv
    exact ⟨_, hn⟩
  | buffer ds =>
    obtain ⟨items, parent, hn, -⟩ := hv
    exact ⟨_, hn⟩

theorem Object.Stands.exists_node {o : Object String} (hstands : o.Stands t h) :
    ∃ node, t.find? h = some node := by
  cases o with
  | name written value =>
    rw [Object.Stands] at hstands
    obtain ⟨label, below, parent, bytes, hn, -⟩ := hstands
    exact ⟨_, hn⟩
  | buffer ds =>
    rw [Object.Stands] at hstands
    exact hstands.exists_node
  | region kind written members =>
    rw [Object.Stands] at hstands
    obtain ⟨label, below, parent, bytes, hn, -⟩ := hstands
    exact ⟨_, hn⟩

theorem Value.Stands.bytesOf_eq {value : Value} (hv : value.Stands t h) (ho : t.Ordered) :
    t.bytesOf h = value.encode := by
  cases value with
  | encoded bytes =>
    obtain ⟨parent, hn⟩ := hv
    exact ho.bytesOf_eq hn
  | buffer ds =>
    obtain ⟨items, parent, hn, hall⟩ := hv
    have hflat : items.flatMap t.bytesOf = ds.flatten := by
      clear hn
      induction hall with
      | nil => rfl
      | cons hd _ ih =>
        obtain ⟨parent, hd⟩ := hd
        rw [List.flatMap_cons, List.flatten_cons, ih, ho.bytesOf_eq hd, Tree.encodeContent]
    rw [ho.bytesOf_eq hn, Tree.encodeContent, hflat]
    rfl

mutual

/-- **What stands at a node has the bytes that builders write.** -/
theorem Object.Stands.write_eq (ho : t.Ordered) :
    ∀ {o : Object String} {h : Handle}, o.Stands t h → o.write = .ok (t.bytesOf h)
  | .name written value, h, hstands => by
    rw [Object.Stands] at hstands
    obtain ⟨label, below, parent, bytes, hn, hname, ⟨parent', hlabel⟩, hvalue⟩ := hstands
    rw [Object.write, declareName, hname, ho.bytesOf_eq hn, Tree.encodeContent,
      ho.bytesOf_eq hlabel, hvalue.bytesOf_eq ho]
    rfl
  | .buffer ds, h, hstands => by
    rw [Object.Stands] at hstands
    rw [Object.write, hstands.bytesOf_eq ho]
    rfl
  | .region kind written members, h, hstands => by
    rw [Object.Stands] at hstands
    obtain ⟨label, below, parent, bytes, hn, hname, ⟨parent', hlabel⟩, hall⟩ := hstands
    rw [Object.write, hname, Object.StandAll.write_eq ho hall, ho.bytesOf_eq hn,
      Tree.encodeContent, ho.bytesOf_eq hlabel, List.flatMap_def]
    rfl

theorem Object.StandAll.write_eq (ho : t.Ordered) :
    ∀ {os : List (Object String)} {hs : List Handle}, Object.StandAll t os hs →
      Object.writeAll os = .ok (hs.map t.bytesOf)
  | [], [], _ => rfl
  | o :: os, h :: hs, hall => by
    rw [Object.StandAll] at hall
    rw [Object.writeAll, Object.Stands.write_eq ho hall.1, Object.StandAll.write_eq ho hall.2]
    rfl

end

/-- What stands in a tree is encoded as builders write it. -/
theorem Object.Stands.encode_eq {o : Object String} (ho : t.Ordered) (hstands : o.Stands t h) :
    t.encode h = o.write := by
  obtain ⟨node, hn⟩ := hstands.exists_node
  rw [Tree.encode_eq hn, hstands.write_eq ho]

theorem Value.Stands.encode_eq {value : Value} (ho : t.Ordered) (hv : value.Stands t h) :
    t.encode h = .ok value.encode := by
  obtain ⟨node, hn⟩ := hv.exists_node
  rw [Tree.encode_eq hn, hv.bytesOf_eq ho]

end Aml

end AcpiTables
