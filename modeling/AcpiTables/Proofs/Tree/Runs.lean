import AcpiTables.Proofs.Aml.Name
import AcpiTables.Proofs.Request
import AcpiTables.Proofs.Tree.Arena
import AcpiTables.Proofs.Tree.Conditions

/-!
# What an edit does

An edit asks all its questions first and then writes. So a run of it has two ends only, as
long as there is memory: it fails with the tree as it was, or its conditions hold and the
tree is changed in one known way. This file says for every edit which way that is, in terms
of what handles denote.

| edit | ends | what handles denote afterwards |
|---|---|---|
| making data | `AcpiTables.Tree.makeData_eq` | `AcpiTables.Tree.Accounts.find?_allocate` |
| making a region | `AcpiTables.Tree.makeRegion_error`, `AcpiTables.Tree.makeRegion_ok` | there |
| making a `Name` | `AcpiTables.Tree.makeName_cases`, `AcpiTables.Tree.makeName_ok` | there |
| attaching | `AcpiTables.Tree.attach_cases` | `AcpiTables.Tree.find?_relink` |
| detaching | `AcpiTables.Tree.detach_cases` | `AcpiTables.Tree.find?_relink` |
| exchanging | `AcpiTables.Tree.replace_cases` | `AcpiTables.Tree.find?_exchanged` |
| deleting | `AcpiTables.Tree.delete_cases` | `AcpiTables.Tree.find?_foldr_release` |
-/

namespace AcpiTables

namespace Tree

variable {t : Tree} {h p x old new : Handle} {node above : Node}

theorem ask_ok {α : Type} {question : Tree → Except Error α} {a : α} (hq : question t = .ok a) :
    ask question t = .ok a t := by
  simp only [ask, hq]

theorem ask_error {α : Type} {question : Tree → Except Error α} {e : Error}
    (hq : question t = .error e) : ask question t = .error e t := by
  simp only [ask, hq]

/-- A node is stored if there is a slot for it. -/
theorem create_ok [Memory] (hslot : t.requireSlot = .ok ()) (content : Content) :
    create content t = .ok (t.allocate content).1 (t.allocate content).2 :=
  bind_ok (ask_ok hslot)

theorem create_error [Memory] {e : Error} (hslot : t.requireSlot = .error e) (content : Content) :
    create content t = .error e t :=
  bind_error (ask_error hslot)

/-- Ample memory has a slot for every node. -/
theorem requireSlot_ample (t : Tree) : t.requireSlot = .ok () :=
  if_neg (by cases t.free.isEmpty <;> exact Bool.false_ne_true)

theorem create_eq (content : Content) (t : Tree) :
    create content t = .ok (t.allocate content).1 (t.allocate content).2 :=
  create_ok (requireSlot_ample t) content

theorem orRelease_ok {α : Type} {m : TreeM α} {a : α} {t' : Tree} (hm : m t = .ok a t')
    (h : Handle) : orRelease h m t = .ok a t' :=
  tryCatch_ok hm

theorem orRelease_error {α : Type} {m : TreeM α} {e : Error} {t' : Tree} (hm : m t = .error e t')
    (h : Handle) : orRelease h m t = .error e (t'.release h) :=
  tryCatch_error hm

/-- An object above a label is stored in ample memory. -/
theorem orRelease_create_eq (h : Handle) (content : Content) (t : Tree) :
    orRelease h (create content) t = .ok (t.allocate content).1 (t.allocate content).2 :=
  orRelease_ok (create_eq content t) h

theorem update_eq (hn : t.find? h = some node) (f : Node → Node) :
    update h f t = .ok () (t.modify h f) :=
  bind_ok (ask_ok (node_eq_ok_iff.mpr hn))

/-- Changing a node fails only if there is nothing to change. -/
theorem after_update (h : Handle) (f : Node → Node) (t : Tree) :
    after (update h f) t = t.modify h f := by
  cases hn : t.find? h with
  | some node => exact after_ok (update_eq hn f)
  | none =>
    have hask : t.node h = .error (.deadNode h) := by rw [Tree.node, hn]
    rw [update, after_bind_error (ask_error hask), modify, hn]

theorem setOwner_eq (hn : t.find? h = some node) (parent : Option Handle) :
    setOwner h parent t = .ok () (t.modify h fun node => { node with parent }) :=
  update_eq hn _

theorem updateChildren_eq (hn : t.find? h = some node)
    (hdata : ∀ type bytes, node.content ≠ .data type bytes) (f : List Handle → List Handle) :
    updateChildren h f t =
      .ok () (t.modify h fun node => { node with content := node.content.mapChildren f }) := by
  refine (bind_ok (ask_ok (content_eq_ok_iff.mpr ⟨node, hn, rfl⟩))).trans ?_
  cases hc : node.content with
  | data type bytes => exact absurd hc (hdata type bytes)
  | name label value => exact update_eq hn _
  | buffer items => exact update_eq hn _
  | region kind label members => exact update_eq hn _

/-- A node is still there after a change to one. -/
theorem exists_find?_modify (hx : t.find? x = some node) (y : Handle) (f : Node → Node) :
    ∃ node', (t.modify y f).find? x = some node' := by
  rw [find?_modify]
  split
  · next he => exact ⟨f node, by rw [← he, hx, Option.map_some]⟩
  · exact ⟨node, hx⟩

/-! ### A node under another owner -/

/-- The tree with the content of one node changed and the owner of another. -/
def relink (t : Tree) (p : Handle) (change : Content → Content) (h : Handle)
    (parent : Option Handle) : Tree :=
  (t.modify p fun node => { node with content := change node.content }).modify h
    fun node => { node with parent }

theorem find?_relink (hp : t.find? p = some above) (hn : t.find? h = some node) (hne : p ≠ h)
    (change : Content → Content) (parent : Option Handle) (x : Handle) :
    (t.relink p change h parent).find? x = if x = h then some { node with parent }
      else if x = p then some { above with content := change above.content }
      else t.find? x := by
  simp only [relink, find?_modify, if_neg hne.symm, hn, hp, Option.map_some]

/-- The steps of an edit that gives a node another owner. -/
theorem relink_eq (hp : t.find? p = some above) (hn : t.find? h = some node)
    (hdata : ∀ type bytes, above.content ≠ .data type bytes) (f : List Handle → List Handle)
    (parent : Option Handle) :
    (do updateChildren p f; setOwner h parent : TreeM Unit) t =
      .ok () (t.relink p (·.mapChildren f) h parent) := by
  rw [bind_ok (updateChildren_eq hp hdata f)]
  obtain ⟨node', hn'⟩ := exists_find?_modify hn p
    fun node => { node with content := node.content.mapChildren f }
  exact setOwner_eq hn' parent

/-! ### Attaching -/

/-- Whether a node is a buffer with an End Tag for its last item. -/
def endsInTag (t : Tree) (content : Content) : Bool :=
  match content with
  | .buffer items => items.getLast?.any t.isEndTag
  | _ => false

/-- **When a node can be attached** to a parent. -/
structure Attachable (t : Tree) (p h : Handle) (above node : Node) : Prop where
  /-- The parent is there. -/
  find_parent : t.find? p = some above
  /-- The node is there. -/
  find_node : t.find? h = some node
  /-- The node is detached. -/
  detached : node.parent = none
  /-- The parent is not below the node. -/
  not_above : t.isAbove h p = false
  /-- The parent holds such nodes. -/
  accepts : above.content.accepts node.content
  /-- No End Tag is attached to a buffer that has one. -/
  one_end_tag : t.endsInTag above.content = true → t.isEndTag h = false

/-- The tree after a node became a child: the last one, or the last but the End Tag. -/
def attached (t : Tree) (p h : Handle) (above : Node) : Tree :=
  t.relink p (·.mapChildren fun children => insertItem (t.endsInTag above.content) children h) h
    (some p)

theorem Attachable.not_data (ha : t.Attachable p h above node) (type : DataType) (bytes : Bytes) :
    above.content ≠ .data type bytes := Content.ne_data_of_accepts ha.accepts type bytes

theorem Attachable.requireAttachable (ha : t.Attachable p h above node) :
    t.requireAttachable p h = .ok () :=
  requireAttachable_eq_ok_iff.mpr
    ⟨above, node, ha.find_parent, ha.find_node, ha.detached, ha.not_above, ha.accepts⟩

theorem appendDescriptor_ok (ha : t.Attachable p h above node) {items : List Handle}
    (hi : above.content = .buffer items) :
    appendDescriptor p h t = .ok () (t.attached p h above) := by
  have hask : t.requireAppendable p h = .ok (t.endsInTag above.content) :=
    requireAppendable_eq_ok_iff.mpr ⟨ha.requireAttachable, above, items, ha.find_parent, hi,
      by rw [hi, endsInTag], ha.one_end_tag⟩
  rw [appendDescriptor, bind_ok (ask_ok hask)]
  exact relink_eq ha.find_parent ha.find_node ha.not_data _ _

theorem appendDescriptor_cases (p h : Handle) (t : Tree) :
    (∃ e, appendDescriptor p h t = .error e t) ∨
      ∃ above node items, t.Attachable p h above node ∧ above.content = .buffer items ∧
        appendDescriptor p h t = .ok () (t.attached p h above) := by
  cases hask : t.requireAppendable p h with
  | error e => exact Or.inl ⟨e, bind_error (ask_error hask)⟩
  | ok hasEndTag =>
    obtain ⟨hatt, above, items, hp, hi, rfl, hone⟩ := requireAppendable_eq_ok_iff.mp hask
    obtain ⟨above', node, hp', hn, hd, hna, hacc⟩ := requireAttachable_eq_ok_iff.mp hatt
    obtain rfl := Option.some.inj (hp.symm.trans hp')
    have ha : t.Attachable p h above node :=
      ⟨hp, hn, hd, hna, hacc, by rw [hi, endsInTag]; exact hone⟩
    exact Or.inr ⟨above, node, items, ha, hi, appendDescriptor_ok ha hi⟩

/-- **An attachable node is attached.** -/
theorem attach_ok (ha : t.Attachable p h above node) :
    attach p h t = .ok () (t.attached p h above) := by
  rw [attach, bind_ok (ask_ok (content_eq_ok_iff.mpr ⟨above, ha.find_parent, rfl⟩))]
  cases hc : above.content with
  | data type bytes => exact absurd hc (ha.not_data type bytes)
  | name label value =>
    have := ha.accepts
    rw [hc] at this
    exact nomatch this
  | buffer items => exact appendDescriptor_ok ha hc
  | region kind label members =>
    refine (bind_ok (ask_ok ha.requireAttachable)).trans ?_
    rw [relink_eq ha.find_parent ha.find_node ha.not_data, attached, hc]
    rfl

/-- **What attaching does**: nothing, with an error, or the node was attachable and is
attached. -/
theorem attach_cases (p h : Handle) (t : Tree) :
    (∃ e, attach p h t = .error e t) ∨ ∃ above node, t.Attachable p h above node ∧
      attach p h t = .ok () (t.attached p h above) := by
  cases hp : t.find? p with
  | none =>
    have hask : t.content p = .error (.deadNode p) := by simp [content, Tree.node, hp]
    exact Or.inl ⟨_, bind_error (ask_error hask)⟩
  | some above =>
    have hask := content_eq_ok_iff.mpr ⟨above, hp, rfl⟩
    -- A buffer has an edit of its own, and every other parent is asked the same questions.
    by_cases hbuffer : ∃ items, above.content = .buffer items
    · obtain ⟨items, hi⟩ := hbuffer
      have heq : attach p h t = appendDescriptor p h t := by
        rw [attach, bind_ok (ask_ok hask), hi]
      rw [heq]
      rcases appendDescriptor_cases p h t with herr | ⟨above, node, -, ha, -, hok⟩
      · exact Or.inl herr
      · exact Or.inr ⟨above, node, ha, hok⟩
    · cases hatt : t.requireAttachable p h with
      | error e =>
        refine Or.inl ⟨e, ?_⟩
        rw [attach, bind_ok (ask_ok hask)]
        cases hc : above.content with
        | buffer items => exact absurd ⟨items, hc⟩ hbuffer
        | data type bytes => exact bind_error (ask_error hatt)
        | name label value => exact bind_error (ask_error hatt)
        | region kind label members => exact bind_error (ask_error hatt)
      | ok u =>
        obtain ⟨above', node, hp', hn, hd, hna, hacc⟩ := requireAttachable_eq_ok_iff.mp hatt
        obtain rfl := Option.some.inj (hp.symm.trans hp')
        have hone : t.endsInTag above.content = false := by
          cases hc : above.content with
          | buffer items => exact absurd ⟨items, hc⟩ hbuffer
          | data type bytes => rfl
          | name label value => rfl
          | region kind label members => rfl
        have ha : t.Attachable p h above node :=
          ⟨hp, hn, hd, hna, hacc, fun ht => by simp [hone] at ht⟩
        exact Or.inr ⟨above, node, ha, attach_ok ha⟩

/-! ### Detaching -/

/-- **A child is detached.** -/
theorem detach_ok (hn : t.find? h = some node) (hpar : node.parent = some p)
    (hp : t.find? p = some above) (hh : h ∈ above.content.children) :
    detach h t = .ok () (t.relink p (·.mapChildren fun children => children.erase h) h none) := by
  have hask : t.childOwner h = .ok p := childOwner_eq_ok_iff.mpr ⟨node, above, hn, hpar, hp, hh⟩
  rw [detach, bind_ok (ask_ok hask)]
  exact relink_eq hp hn (Content.ne_data_of_mem_children hh) _ _

/-- **What detaching does**: nothing, with an error, or the node was a child and is
detached. -/
theorem detach_cases (h : Handle) (t : Tree) :
    (∃ e, detach h t = .error e t) ∨
      ∃ p above node, t.find? h = some node ∧ node.parent = some p ∧ t.find? p = some above ∧
        h ∈ above.content.children ∧
        detach h t =
          .ok () (t.relink p (·.mapChildren fun children => children.erase h) h none) := by
  cases hask : t.childOwner h with
  | error e => exact Or.inl ⟨e, bind_error (ask_error hask)⟩
  | ok p =>
    obtain ⟨node, above, hn, hpar, hp, hh⟩ := childOwner_eq_ok_iff.mp hask
    exact Or.inr ⟨p, above, node, hn, hpar, hp, hh, detach_ok hn hpar hp hh⟩

/-! ### Exchanging -/

/-- The tree with a node in the place of another, which is detached. -/
def exchanged (t : Tree) (p old new : Handle) (position : Position) : Tree :=
  (t.relink p (·.put new position) old none).modify new fun node => { node with parent := some p }

theorem find?_exchanged {oldNode newNode : Node} (hp : t.find? p = some above)
    (ho : t.find? old = some oldNode) (hn : t.find? new = some newNode) (hpo : p ≠ old)
    (hpn : p ≠ new) (hne : new ≠ old) (position : Position) (x : Handle) :
    (t.exchanged p old new position).find? x =
      if x = new then some { newNode with parent := some p }
      else if x = old then some { oldNode with parent := none }
      else if x = p then some { above with content := above.content.put new position }
      else t.find? x := by
  rw [exchanged, find?_modify, find?_relink hp ho hpo, find?_relink hp ho hpo, if_neg hne,
    if_neg hpn.symm, hn, Option.map_some]

/-- The steps of an exchange. Each of them writes, so the nodes have to be there after the steps
before it. -/
theorem exchange_eq {oldNode newNode : Node} (hp : t.find? p = some above)
    (ho : t.find? old = some oldNode) (hn : t.find? new = some newNode) (position : Position) :
    (do
      update p fun node => { node with content := node.content.put new position }
      setOwner old none
      setOwner new (some p) : TreeM Unit) t = .ok () (t.exchanged p old new position) := by
  obtain ⟨oldNode', ho'⟩ := exists_find?_modify ho p
    fun node => { node with content := node.content.put new position }
  obtain ⟨newNode', hn'⟩ := exists_find?_modify hn p
    fun node => { node with content := node.content.put new position }
  obtain ⟨newNode'', hn''⟩ := exists_find?_modify hn' old fun node => { node with parent := none }
  refine (bind_ok (update_eq hp _)).trans ((bind_ok (setOwner_eq ho' none)).trans ?_)
  exact setOwner_eq hn'' (some p)

/-- **A node that fits is exchanged** for the one in its place. -/
theorem replace_ok {position : Position} {oldNode newNode : Node} (hp : t.find? p = some above)
    (ho : t.find? old = some oldNode) (hn : t.find? new = some newNode)
    (hpar : oldNode.parent = some p) (hd : newNode.parent = none) (hna : t.isAbove new p = false)
    (hpos : above.content.position? old = some position)
    (hadm : above.content.Admits oldNode.content newNode.content position) :
    replace old new t = .ok () (t.exchanged p old new position) := by
  have hask : t.requireReplacement old new = .ok (p, position) :=
    requireReplacement_eq_ok_iff.mpr
      ⟨above, oldNode, newNode, hp, ho, hn, hpar, hd, hna, hpos, hadm⟩
  rw [replace, bind_ok (ask_ok hask)]
  exact exchange_eq hp ho hn position

/-- **What exchanging does**: nothing, with an error, or the detached node fits the place of
the other and stands there. -/
theorem replace_cases (old new : Handle) (t : Tree) :
    (∃ e, replace old new t = .error e t) ∨ ∃ p position above oldNode newNode,
      t.find? p = some above ∧ t.find? old = some oldNode ∧ t.find? new = some newNode ∧
        oldNode.parent = some p ∧ newNode.parent = none ∧ t.isAbove new p = false ∧
        above.content.position? old = some position ∧
        above.content.Admits oldNode.content newNode.content position ∧
        replace old new t = .ok () (t.exchanged p old new position) := by
  cases hask : t.requireReplacement old new with
  | error e => exact Or.inl ⟨e, bind_error (ask_error hask)⟩
  | ok place =>
    obtain ⟨p, position⟩ := place
    obtain ⟨above, oldNode, newNode, hp, ho, hn, hpar, hd, hna, hpos, hadm⟩ :=
      requireReplacement_eq_ok_iff.mp hask
    exact Or.inr ⟨p, position, above, oldNode, newNode, hp, ho, hn, hpar, hd, hna, hpos, hadm,
      replace_ok hp ho hn hpar hd hna hpos hadm⟩

/-! ### Deleting -/

theorem find?_foldr_release (t : Tree) (hs : List Handle) (x : Handle) :
    (hs.foldr (fun h t => t.release h) t).find? x = if x ∈ hs then none else t.find? x := by
  induction hs with
  | nil => simp
  | cons h hs ih =>
    rw [List.foldr_cons, find?_release, ih]
    by_cases hx : x = h <;> simp [hx]

theorem contains_foldr_release (t : Tree) (hs : List Handle) (x : Handle) :
    (hs.foldr (fun h t => t.release h) t).contains x = true ↔ t.contains x = true ∧ x ∉ hs := by
  rw [contains, contains, find?_foldr_release]
  by_cases hx : x ∈ hs <;> simp [hx]

theorem length_slots_foldr_release (t : Tree) (hs : List Handle) :
    (hs.foldr (fun h t => t.release h) t).slots.length = t.slots.length := by
  induction hs with
  | nil => rfl
  | cons h hs ih => rw [List.foldr_cons, length_slots_release, ih]

/-- A detached node is deleted. -/
theorem delete_ok (hn : t.find? h = some node) (hd : node.parent = none) :
    delete h t = .ok () ((t.postorder h).foldr (fun h t => t.release h) t) := by
  have hask : t.requireDetached h = .ok () := requireDetached_eq_ok_iff.mpr ⟨node, hn, hd⟩
  exact bind_ok (ask_ok hask)

/-- **What deleting does**: nothing, with an error, or the node was detached and goes away with
its subtree. -/
theorem delete_cases (h : Handle) (t : Tree) :
    (∃ e, delete h t = .error e t) ∨ ∃ node, t.find? h = some node ∧ node.parent = none ∧
      delete h t = .ok () ((t.postorder h).foldr (fun h t => t.release h) t) := by
  cases hask : t.requireDetached h with
  | error e => exact Or.inl ⟨e, bind_error (ask_error hask)⟩
  | ok u =>
    obtain ⟨node, hn, hd⟩ := requireDetached_eq_ok_iff.mp hask
    exact Or.inr ⟨node, hn, hd, delete_ok hn hd⟩

/-! ### Making nodes -/

theorem makeData_eq (type : DataType) (bytes : Bytes) (t : Tree) :
    makeData type bytes t = match requireData type bytes with
      | .ok _ => .ok (t.allocate (.data type bytes)).1 (t.allocate (.data type bytes)).2
      | .error e => .error e t := by
  cases hask : requireData type bytes with
  | error e => exact bind_error (ask_error hask)
  | ok u =>
    have hbytes : requireBytes bytes.length t = .ok () := rfl
    exact (bind_ok (ask_ok hask)).trans ((bind_ok (ask_ok hbytes)).trans (create_eq _ t))

theorem makeBuffer_eq (t : Tree) :
    makeBuffer t = .ok (t.allocate (.buffer [])).1 (t.allocate (.buffer [])).2 := create_eq _ t

/-- A written name can be the data of a label. -/
theorem requireData_of_objectName {name : String} {allowRoot : Bool} {bytes : Bytes}
    (hname : Aml.objectName name allowRoot = .ok bytes) :
    requireData .nameString bytes = .ok () := by
  have hne : bytes.isEmpty = false :=
    Bool.eq_false_iff.mpr fun he => Aml.objectName_ne_nil hname (List.isEmpty_iff.mp he)
  simp [requireData, hne]

theorem makeLabel_ok {name : String} {allowRoot : Bool} {bytes : Bytes}
    (hname : Aml.objectName name allowRoot = .ok bytes) (t : Tree) :
    makeLabel name allowRoot t = .ok (t.allocate (.data .nameString bytes)).1
      (t.allocate (.data .nameString bytes)).2 := by
  rw [makeLabel, bind_ok (ask_ok hname), makeData_eq, requireData_of_objectName hname]

theorem makeLabel_error [Memory] {name : String} {allowRoot : Bool} {e : Error}
    (hname : Aml.objectName name allowRoot = .error e) (t : Tree) :
    makeLabel name allowRoot t = .error e t :=
  bind_error (ask_error hname)

/-- A new label, a new object above it whose content is made of the label, and the tree with
both. -/
def withLabel (t : Tree) (bytes : Bytes) (content : Handle → Content) : Handle × Handle × Tree :=
  let label := t.allocate (.data .nameString bytes)
  let object := label.2.allocate (content label.1)
  (label.1, object.1, object.2.modify label.1 fun node => { node with parent := some object.1 })

/-- **What handles denote once a labelled object is made**: only the two new handles denote
something else than before, and they denoted nothing. -/
structure Labelled (t : Tree) (bytes : Bytes) (content : Handle → Content) (label object : Handle)
    (t' : Tree) : Prop where
  /-- The label is new. -/
  find_label : t.find? label = none
  /-- The object is new. -/
  find_object : t.find? object = none
  /-- The label is not the object. -/
  label_ne : label ≠ object
  /-- The books are kept. -/
  accounts : t'.Accounts
  /-- The label is owned by the object, and the object is detached. -/
  find? : ∀ x, t'.find? x =
    if x = label then some ⟨.data .nameString bytes, some object⟩
    else if x = object then some ⟨content label, none⟩
    else t.find? x

/-- What was there is still there, unchanged. -/
theorem Labelled.find?_old {bytes : Bytes} {content : Handle → Content} {label object : Handle}
    {t' : Tree} (hl : t.Labelled bytes content label object t') (hx : t.find? x = some node) :
    t'.find? x = some node := by
  have hnl : x ≠ label := fun he => by simp [he, hl.find_label] at hx
  have hno : x ≠ object := fun he => by simp [he, hl.find_object] at hx
  rw [hl.find?, if_neg hnl, if_neg hno, hx]

theorem Accounts.labelled (ha : t.Accounts) (bytes : Bytes) (content : Handle → Content)
    (hfit : (t.withLabel bytes content).2.2.Fits) :
    t.Labelled bytes content (t.withLabel bytes content).1 (t.withLabel bytes content).2.1
      (t.withLabel bytes content).2.2 := by
  unfold withLabel at hfit ⊢
  -- The label and the object are allocated one after the other, so there are three trees.
  generalize hlabel : t.allocate (.data .nameString bytes) = label at hfit ⊢
  obtain ⟨l, t₁⟩ := label
  dsimp only at hfit ⊢
  generalize hobject : t₁.allocate (content l) = object at hfit ⊢
  obtain ⟨r, t₂⟩ := object
  dsimp only at hfit ⊢
  have hfit₂ : (t₁.allocate (content l)).2.Fits := by
    rw [hobject]
    simpa [Fits] using hfit
  have hfit₁ : (t.allocate (.data .nameString bytes)).2.Fits := by
    rw [hlabel]
    exact Nat.le_trans (length_slots_le_allocate t₁ (content l)) hfit₂
  have ha₁ : t₁.Accounts := by simpa [hlabel] using ha.allocate _ hfit₁
  have ha₂ : t₂.Accounts := by simpa [hobject] using ha₁.allocate _ hfit₂
  have hl : t.find? l = none := by simpa [hlabel] using ha.find?_allocate_fst _ hfit₁
  have hr : t₁.find? r = none := by simpa [hobject] using ha₁.find?_allocate_fst _ hfit₂
  have hfind₁ : ∀ x, t₁.find? x = if x = l then some ⟨.data .nameString bytes, none⟩
      else t.find? x := by simpa [hlabel] using ha.find?_allocate _ hfit₁
  have hfind₂ : ∀ x, t₂.find? x = if x = r then some ⟨content l, none⟩ else t₁.find? x := by
    simpa [hobject] using ha₁.find?_allocate _ hfit₂
  have hne : l ≠ r := fun he => by simp [hfind₁, he] at hr
  refine ⟨hl, by simpa [hfind₁, hne.symm] using hr, hne, ha₂.modify _ _, fun x => ?_⟩
  rw [find?_modify, hfind₂ l, if_neg hne, hfind₁ l, if_pos rfl, Option.map_some]
  by_cases hx : x = l
  · rw [if_pos hx, if_pos hx]
  · rw [if_neg hx, if_neg hx, hfind₂ x, hfind₁ x, if_neg hx]

/-- The step that gives a new label its owner. -/
private theorem setOwner_withLabel (ha : t.Accounts) {bytes : Bytes} {content : Handle → Content}
    (hfit : (t.withLabel bytes content).2.2.Fits) :
    setOwner (t.withLabel bytes content).1 (some (t.withLabel bytes content).2.1)
      ((t.allocate (.data .nameString bytes)).2.allocate
        (content (t.allocate (.data .nameString bytes)).1)).2 =
      .ok () (t.withLabel bytes content).2.2 := by
  have hlabel := (ha.labelled bytes content hfit).find? (t.withLabel bytes content).1
  rw [if_pos rfl, withLabel, find?_modify, if_pos rfl] at hlabel
  obtain ⟨node, hn, -⟩ := Option.map_eq_some_iff.mp hlabel
  exact setOwner_eq hn _

/-- **What making a region does**, if its name can be written. -/
theorem makeRegion_ok (ha : t.Accounts) {kind : Region} {name : String} {bytes : Bytes}
    (hname : Aml.objectName name (kind == .scope) = .ok bytes)
    (hfit : (t.withLabel bytes fun label => .region kind label []).2.2.Fits) :
    makeRegion kind name t =
      .ok (t.withLabel bytes fun label => .region kind label []).2.1
        (t.withLabel bytes fun label => .region kind label []).2.2 := by
  rw [makeRegion, bind_ok (makeLabel_ok hname t), bind_ok (orRelease_create_eq _ _ _)]
  exact bind_ok (setOwner_withLabel ha hfit)

theorem makeRegion_error [Memory] {kind : Region} {name : String} {e : Error}
    (hname : Aml.objectName name (kind == .scope) = .error e) (t : Tree) :
    makeRegion kind name t = .error e t :=
  bind_error (makeLabel_error hname t)

/-- **What making a `Name` does**, if it can be written and the value can be taken over. -/
theorem makeName_ok (ha : t.Accounts) {name : String} {bytes : Bytes} {value : Handle}
    (hname : Aml.objectName name false = .ok bytes) (hv : t.find? value = some node)
    (hd : node.parent = none) (hk : node.content.kind.isValue)
    (hfit : (t.withLabel bytes fun label => .name label value).2.2.Fits) :
    makeName name value t =
      .ok (t.withLabel bytes fun label => .name label value).2.1
        ((t.withLabel bytes fun label => .name label value).2.2.modify value fun node =>
          { node with parent := some (t.withLabel bytes fun label => .name label value).2.1 }) := by
  have hv' := (ha.labelled bytes (fun label => .name label value) hfit).find?_old hv
  have hdetached : t.requireDetached value = .ok () :=
    requireDetached_eq_ok_iff.mpr ⟨node, hv, hd⟩
  have hvalue : t.requireValue value = .ok () := requireValue_eq_ok_iff.mpr ⟨node, hv, hk⟩
  rw [makeName, bind_ok (ask_ok hdetached), bind_ok (ask_ok hvalue),
    bind_ok (makeLabel_ok hname t), bind_ok (orRelease_create_eq _ _ _)]
  exact (bind_ok (setOwner_withLabel ha hfit)).trans (bind_ok (setOwner_eq hv' _))

/-- **When a `Name` is not made**, nothing is. -/
theorem makeName_cases (name : String) (value : Handle) (t : Tree) :
    (∃ e, makeName name value t = .error e t) ∨ ∃ node bytes, t.find? value = some node ∧
      node.parent = none ∧ node.content.kind.isValue ∧
      Aml.objectName name false = .ok bytes := by
  cases hd : t.requireDetached value with
  | error e => exact Or.inl ⟨e, bind_error (ask_error hd)⟩
  | ok u =>
    obtain ⟨node, hn, hpar⟩ := requireDetached_eq_ok_iff.mp hd
    cases hk : t.requireValue value with
    | error e =>
      exact Or.inl ⟨e, (bind_ok (ask_ok hd)).trans (bind_error (ask_error hk))⟩
    | ok u =>
      obtain ⟨node', hn', hkind⟩ := requireValue_eq_ok_iff.mp hk
      obtain rfl := Option.some.inj (hn.symm.trans hn')
      cases hname : Aml.objectName name false with
      | error e =>
        refine Or.inl ⟨e, (bind_ok (ask_ok hd)).trans ((bind_ok (ask_ok hk)).trans ?_)⟩
        exact bind_error (makeLabel_error hname t)
      | ok bytes => exact Or.inr ⟨node, bytes, hn, hpar, hkind, rfl⟩

end Tree

end AcpiTables
