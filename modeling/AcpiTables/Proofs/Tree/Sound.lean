import AcpiTables.Proofs.Tree.Runs
import AcpiTables.Proofs.Tree.Walk

/-!
# Sound trees

Everything that is true of all trees that requests can make is in `AcpiTables.Tree.Sound`:
the arena keeps its books, ownership is a forest, every link fits its place, and every node
is of a kind that is allowed. Which kinds are allowed is left open. A
`AcpiTables.Kind.Criterion` must allow all objects and all labels; what it says of other
data is between the one who states it and the requests that make data.

There are as many ways to change a tree as `AcpiTables.View.Forest` has, and each keeps a
tree sound:

| change | theorem |
|---|---|
| new data, or an empty buffer | `AcpiTables.Tree.Sound.allocate` |
| a new object with its label | `AcpiTables.Tree.Sound.labelled` |
| a node becomes a child | `AcpiTables.Tree.Sound.attached` |
| a child becomes detached | `AcpiTables.Tree.Sound.detached` |
| a node takes the place of another | `AcpiTables.Tree.Sound.exchanged` |
| a subtree goes away | `AcpiTables.Tree.Sound.released` |
-/

namespace AcpiTables

/-- Which kinds of nodes are allowed: all objects and all labels, and some data. -/
structure Kind.Criterion (P : Kind → Prop) : Prop where
  /-- Every object is allowed. -/
  object : ∀ opcode, P (.object opcode)
  /-- Every label is allowed. -/
  label : ∀ {name : String} {allowRoot : Bool} {bytes : Bytes},
    Aml.objectName name allowRoot = .ok bytes → P (.data .nameString bytes)

/-- All kinds may be allowed. -/
theorem Kind.criterion_true : Kind.Criterion fun _ => True where
  object _ := trivial
  label _ := trivial

namespace Tree

variable {t t' : Tree} {h p x : Handle} {node above : Node} {P : Kind → Prop}

/-- The kind of the node that a handle denotes. -/
def kind? (t : Tree) (h : Handle) : Option Kind := (t.find? h).map fun node => node.content.kind

theorem kind?_eq (hn : t.find? h = some node) : t.kind? h = some node.content.kind := by
  rw [kind?, hn, Option.map_some]

theorem any_kind?_iff {p : Kind → Bool} :
    (t.kind? h).any p = true ↔ ∃ node, t.find? h = some node ∧ p node.content.kind = true := by
  rw [kind?]
  cases t.find? h with
  | none => simp
  | some node => simp

theorem isEndTag_eq_kind? (t : Tree) (h : Handle) :
    t.isEndTag h = (t.kind? h).any Kind.isEndTag := by
  rw [isEndTag, kind?]
  cases t.find? h with
  | none => rfl
  | some node => exact (Content.isEndTag_kind node.content).symm

/-- **A sound tree**, all of whose nodes are of an allowed kind. -/
structure Sound (t : Tree) (P : Kind → Prop) : Prop extends t.Ordered where
  /-- Every link fits its place. -/
  shaped : ∀ h node, t.find? h = some node → node.content.Shaped t.kind?
  /-- Every node is of an allowed kind. -/
  allowed : ∀ h node, t.find? h = some node → P node.content.kind

theorem sound_empty (P : Kind → Prop) : empty.Sound P where
  toOrdered := ordered_empty
  shaped _ _ hn := nomatch hn
  allowed _ _ hn := nomatch hn

namespace Sound

/-! ### What stays of the nodes -/

/-- **Shapes and kinds after a change that keeps all kinds.** Each node has the content of the
one before, or it has to be looked at. -/
theorem of_kept (hs : t.Sound P) (ho : t'.Ordered)
    (hkind : ∀ x k, t.kind? x = some k → t'.kind? x = some k)
    (hnode : ∀ x node', t'.find? x = some node' →
      (∃ node, t.find? x = some node ∧ node.content = node'.content) ∨
        node'.content.Shaped t'.kind? ∧ P node'.content.kind) : t'.Sound P where
  toOrdered := ho
  shaped x node' hx := by
    rcases hnode x node' hx with ⟨node, hn, hc⟩ | hnew
    · rw [← hc]
      refine (hs.shaped x node hn).congr fun y hy => ?_
      obtain ⟨below, hb⟩ := hs.exists_of_mem hn hy
      rw [kind?_eq hb]
      exact hkind y _ (kind?_eq hb)
    · exact hnew.1
  allowed x node' hx := by
    rcases hnode x node' hx with ⟨node, hn, hc⟩ | hnew
    · exact hc ▸ hs.allowed x node hn
    · exact hnew.2

/-! ### New nodes -/

/-- Storing a node without links. -/
theorem allocate (hs : t.Sound P) {content : Content} (hleaf : content.links = [])
    (hP : P content.kind) (hfit : (t.allocate content).2.Fits) :
    (t.allocate content).2.Sound P := by
  have hnew := hs.accounts.find?_allocate_fst content hfit
  have hfind := hs.accounts.find?_allocate content hfit
  have hforest : View.Forest (t.allocate content).2.find? :=
    hs.forest.insert_leaf hnew hleaf hfind
  refine hs.of_kept ⟨hs.accounts.allocate content hfit, hforest⟩ (fun x k hk => ?_)
    fun x node' hx => ?_
  · have hne : x ≠ (t.allocate content).1 := fun he => by simp [kind?, he, hnew] at hk
    rwa [kind?, hfind, if_neg hne]
  · rw [hfind] at hx
    split at hx
    · rw [← Option.some.inj hx]
      exact Or.inr ⟨Content.shaped_of_links_nil hleaf, hP⟩
    · exact Or.inl ⟨node', hx, rfl⟩

/-- **Storing an object that takes over detached nodes**, the first of which is its new
label. -/
theorem labelled (hs : t.Sound P) {bytes : Bytes} {label object : Handle} {content : Content}
    {taken : List Handle} (ha : t'.Accounts) (hlabel : t.find? label = none)
    (hobject : t.find? object = none) (hne : label ≠ object)
    (hlinks : content.links = label :: taken) (hnd : taken.Nodup)
    (htaken : ∀ x ∈ taken, ∃ node, t.find? x = some node ∧ node.parent = none)
    (hfind : ∀ x, t'.find? x =
      if x = label then some ⟨.data .nameString bytes, some object⟩
      else if x = object then some ⟨content, none⟩
      else (t.find? x).map fun node =>
        if x ∈ taken then { node with parent := some object } else node)
    (hshape : content.Shaped t'.kind?) (hP : P content.kind)
    (hPlabel : P (.data .nameString bytes)) : t'.Sound P := by
  have hnot : label ∉ taken := fun hl => by
    obtain ⟨node, hn, -⟩ := htaken label hl
    exact nomatch hlabel.symm.trans hn
  -- The label comes first, as a node of its own, and the object takes it over with the others.
  let between : View := fun x =>
    if x = label then some ⟨.data .nameString bytes, none⟩ else t.find? x
  have hbetween : between.Forest :=
    hs.forest.insert_leaf hlabel (Content.links_data .nameString bytes) fun _ => rfl
  have hother : ∀ x, x ≠ label → between x = t.find? x := fun x hx => by
    simp only [between, if_neg hx]
  have hforest : View.Forest t'.find? := by
    have hnew : between object = none := by rw [hother object hne.symm, hobject]
    refine hbetween.insert hnew (?_ : content.links.Nodup) (fun x hx => ?_) fun x => ?_
    · rw [hlinks]
      exact List.nodup_cons.mpr ⟨hnot, hnd⟩
    · rw [hlinks] at hx
      rcases List.mem_cons.mp hx with rfl | hx
      · exact ⟨_, if_pos rfl, rfl⟩
      · rw [hother x fun he => hnot (he ▸ hx)]
        exact htaken x hx
    · rw [hfind, hlinks]
      by_cases hxl : x = label
      · subst hxl
        simp [between, hne]
      · rw [hother x hxl]
        simp [hxl]
  refine hs.of_kept ⟨ha, hforest⟩ (fun x k hk => ?_) fun x node' hx => ?_
  · have hxl : x ≠ label := fun he => by simp [kind?, he, hlabel] at hk
    have hxo : x ≠ object := fun he => by simp [kind?, he, hobject] at hk
    obtain ⟨node, hn, rfl⟩ := Option.map_eq_some_iff.mp hk
    rw [kind?, hfind, if_neg hxl, if_neg hxo, hn]
    by_cases hmem : x ∈ taken <;> simp [hmem]
  · rw [hfind] at hx
    split at hx
    · rw [← Option.some.inj hx]
      exact Or.inr ⟨trivial, hPlabel⟩
    · split at hx
      · rw [← Option.some.inj hx]
        exact Or.inr ⟨hshape, hP⟩
      · obtain ⟨node, hn, rfl⟩ := Option.map_eq_some_iff.mp hx
        refine Or.inl ⟨node, hn, ?_⟩
        split <;> rfl

/-! ### Nodes that become or stop being links -/

/-- Giving nodes other owners keeps what they are. -/
theorem of_relinked (hs : t.Sound P) (ho : t'.Ordered)
    (hkind : ∀ x, t'.kind? x = t.kind? x)
    (hnode : ∀ x node', t'.find? x = some node' →
      (∃ node, t.find? x = some node ∧ node.content = node'.content) ∨
        node'.content.Shaped t.kind?) : t'.Sound P := by
  have hkinds : t'.kind? = t.kind? := funext hkind
  refine hs.of_kept ho (fun x k hk => (hkind x).trans hk) fun x node' hx => ?_
  rcases hnode x node' hx with hold | hshape
  · exact Or.inl hold
  · refine Or.inr ⟨hkinds ▸ hshape, ?_⟩
    have hk := hkind x
    rw [kind?_eq hx, kind?] at hk
    obtain ⟨node, hn, hc⟩ := Option.map_eq_some_iff.mp hk.symm
    exact hc ▸ hs.allowed x node hn

/-- A node keeps its kind when it gets another owner, and so does the owner. -/
theorem kind?_relink (hp : t.find? p = some above) (hn : t.find? h = some node) (hne : p ≠ h)
    {change : Content → Content} (hchange : (change above.content).kind = above.content.kind)
    (parent : Option Handle) (x : Handle) :
    (t.relink p change h parent).kind? x = t.kind? x := by
  rw [kind?, find?_relink hp hn hne]
  by_cases hx : x = h
  · rw [if_pos hx, hx, kind?_eq hn]
    rfl
  · rw [if_neg hx]
    by_cases hxp : x = p
    · rw [if_pos hxp, hxp, kind?_eq hp, Option.map_some, hchange]
    · rw [if_neg hxp, kind?]

theorem relink (hs : t.Sound P) (hp : t.find? p = some above) (hn : t.find? h = some node)
    (hne : p ≠ h) {change : Content → Content} {parent : Option Handle}
    (hchange : (change above.content).kind = above.content.kind)
    (hforest : View.Forest (t.relink p change h parent).find?)
    (hshape : (change above.content).Shaped t.kind?) : (t.relink p change h parent).Sound P := by
  have ha : (t.relink p change h parent).Accounts := (hs.accounts.modify _ _).modify _ _
  refine hs.of_relinked ⟨ha, hforest⟩ (kind?_relink hp hn hne hchange parent) fun x node' hx => ?_
  rw [find?_relink hp hn hne] at hx
  split at hx
  · next he =>
    rw [← Option.some.inj hx]
    exact Or.inl ⟨node, he ▸ hn, rfl⟩
  · split at hx
    · rw [← Option.some.inj hx]
      exact Or.inr hshape
    · exact Or.inl ⟨node', hx, rfl⟩

/-- The node is one more item, wherever it stands. -/
theorem insertItem_perm (keepLast : Bool) (items : List Handle) (h : Handle) :
    (insertItem keepLast items h).Perm (h :: items) := by
  cases keepLast with
  | false => exact List.perm_append_singleton h items
  | true =>
    rw [insertItem, if_pos rfl]
    refine List.perm_middle.trans (List.Perm.cons h ?_)
    cases hl : items.getLast? with
    | none => simp [List.getLast?_eq_none_iff.mp hl]
    | some last =>
      obtain ⟨front, rfl⟩ := List.getLast?_eq_some_iff.mp hl
      simp

/-- The shape of a parent with one more child. -/
theorem shaped_attached (hs : t.Sound P) (ha : t.Attachable p h above node) :
    (above.content.mapChildren fun children =>
      insertItem (t.endsInTag above.content) children h).Shaped t.kind? := by
  have hshape := hs.shaped p above ha.find_parent
  have hacc := ha.accepts
  have hone := ha.one_end_tag
  have hkind := kind?_eq ha.find_node
  cases hc : above.content with
  | data type bytes => exact absurd hc (ha.not_data type bytes)
  | name label value =>
    rw [hc] at hacc
    exact nomatch hacc
  | buffer items =>
    rw [hc] at hshape hacc hone
    have htag : t.isEndTag = fun x => (t.kind? x).any Kind.isEndTag :=
      funext fun x => isEndTag_eq_kind? t x
    have hends : t.endsInTag (.buffer items) =
        items.getLast?.any fun x => (t.kind? x).any Kind.isEndTag := by rw [endsInTag, htag]
    rw [Content.accepts_buffer] at hacc
    rw [hends, isEndTag_eq_kind?, hkind, Option.any_some] at hone
    rw [hends]
    exact hshape.insertItem hkind hacc hone
  | region kind label members =>
    rw [hc] at hshape hacc
    rw [Content.accepts_region] at hacc
    refine ⟨hshape.1, fun x hx => ?_⟩
    rcases List.mem_cons.mp ((insertItem_perm _ members h).mem_iff.mp hx) with rfl | hx
    · rw [hkind]
      exact hacc
    · exact hshape.2 x hx

/-- **Attaching a node keeps a tree sound.** -/
theorem attached (hs : t.Sound P) (ha : t.Attachable p h above node) :
    (t.attached p h above).Sound P := by
  -- The walk that asked about a cycle has seen all that is above the parent.
  have hcycle : ¬View.Above t.find? h p := fun hup => by
    have := hs.isAbove_iff.mpr hup
    rw [ha.not_above] at this
    exact nomatch this
  have hne : p ≠ h := fun he => hcycle (he ▸ Relation.ReflTransGen.refl)
  refine hs.relink ha.find_parent ha.find_node hne (Content.kind_mapChildren _ _) ?_
    (hs.shaped_attached ha)
  refine hs.forest.link ha.find_parent ha.find_node ha.detached ?_ hcycle
    (find?_relink ha.find_parent ha.find_node hne _ _)
  exact Content.links_mapChildren_perm ha.not_data (Content.ne_name_of_accepts ha.accepts)
    (insertItem_perm _ _ h)

/-- **Detaching a child keeps a tree sound.** -/
theorem detached (hs : t.Sound P) (hp : t.find? p = some above) (hn : t.find? h = some node)
    (hh : h ∈ above.content.children) :
    (t.relink p (·.mapChildren fun children => children.erase h) h none).Sound P := by
  have hperm := Content.links_perm_erase hh
  have hup : View.Parent t.find? h p :=
    hs.forest.parent_of_mem hp (hperm.mem_iff.mpr List.mem_cons_self)
  have hne : p ≠ h := hs.forest.owner_ne hup
  exact hs.relink hp hn hne (Content.kind_mapChildren _ _)
    (hs.forest.unlink hp hn hperm (find?_relink hp hn hne _ _)) ((hs.shaped p above hp).erase h)

/-- A node that is exchanged for another is neither that one nor the parent, and the parent is not
the other either. -/
theorem exchanged_ne (ho' : t.Ordered) {old new : Handle} {oldNode newNode : Node}
    (ho : t.find? old = some oldNode) (hn : t.find? new = some newNode)
    (hpar : oldNode.parent = some p) (hd : newNode.parent = none) (hna : t.isAbove new p = false) :
    p ≠ old ∧ p ≠ new ∧ new ≠ old := by
  have hup : View.Parent t.find? old p := ⟨oldNode, ho, hpar⟩
  refine ⟨ho'.forest.owner_ne hup, fun he => ?_,
    fun he => View.not_parent_of_detached hn hd (he ▸ hup)⟩
  have habove : t.isAbove new p = true := ho'.isAbove_iff.mpr (he ▸ Relation.ReflTransGen.refl)
  exact nomatch hna.symm.trans habove

/-- Exchanging nodes changes no kind. -/
theorem kind?_exchanged {old new : Handle} {oldNode newNode : Node} (hp : t.find? p = some above)
    (ho : t.find? old = some oldNode) (hn : t.find? new = some newNode) (hpo : p ≠ old)
    (hpn : p ≠ new) (hno : new ≠ old) (position : Position) (x : Handle) :
    (t.exchanged p old new position).kind? x = t.kind? x := by
  rw [kind?, find?_exchanged hp ho hn hpo hpn hno]
  by_cases hxn : x = new
  · rw [if_pos hxn, hxn, kind?_eq hn]
    rfl
  · by_cases hxo : x = old
    · rw [if_neg hxn, if_pos hxo, hxo, kind?_eq ho]
      rfl
    · by_cases hxp : x = p
      · rw [if_neg hxn, if_neg hxo, if_pos hxp, hxp, kind?_eq hp, Option.map_some,
          Content.kind_put]
      · rw [if_neg hxn, if_neg hxo, if_neg hxp, kind?]

/-- **Exchanging a link for a detached node keeps a tree sound.** -/
theorem exchanged (hs : t.Sound P) {old new : Handle} {oldNode newNode : Node}
    {position : Position} (hp : t.find? p = some above) (ho : t.find? old = some oldNode)
    (hn : t.find? new = some newNode) (hpar : oldNode.parent = some p)
    (hd : newNode.parent = none) (hna : t.isAbove new p = false)
    (hpos : above.content.position? old = some position)
    (hadm : above.content.Admits oldNode.content newNode.content position) :
    (t.exchanged p old new position).Sound P := by
  obtain ⟨hpo, hpn, hno⟩ := exchanged_ne hs.toOrdered ho hn hpar hd hna
  have hcycle : ¬View.Above t.find? new p := fun hup => by
    have := hs.isAbove_iff.mpr hup
    rw [hna] at this
    exact nomatch this
  have hfind := find?_exchanged hp ho hn hpo hpn hno position
  obtain ⟨front, back, hlinks, hlinks'⟩ := Content.links_put hpos new
  have hforest : View.Forest (t.exchanged p old new position).find? :=
    hs.forest.exchange hp ho hn hd hlinks hlinks' hcycle hfind
  have ha : (t.exchanged p old new position).Accounts :=
    ((hs.accounts.modify _ _).modify _ _).modify _ _
  have hshape : (above.content.put new position).Shaped t.kind? :=
    (hs.shaped p above hp).put hpos (kind?_eq ho) (kind?_eq hn) hadm
  refine hs.of_relinked ⟨ha, hforest⟩ (kind?_exchanged hp ho hn hpo hpn hno position)
    fun x node' hx => ?_
  rw [hfind] at hx
  split at hx
  · next he =>
    rw [← Option.some.inj hx]
    exact Or.inl ⟨newNode, he ▸ hn, rfl⟩
  · split at hx
    · next he =>
      rw [← Option.some.inj hx]
      exact Or.inl ⟨oldNode, he ▸ ho, rfl⟩
    · split at hx
      · rw [← Option.some.inj hx]
        exact Or.inr hshape
      · exact Or.inl ⟨node', hx, rfl⟩

/-! ### A subtree that goes away -/

/-- The walk down finds exactly what a node is above of. -/
theorem mem_postorder_iff (hs : t.Sound P) (hn : t.find? h = some node) :
    x ∈ t.postorder h ↔ View.Above t.find? h x := by
  refine hs.induction_links (P := fun h => x ∈ t.postorder h ↔ View.Above t.find? h x)
    (fun h node hn ih => ?_) hn
  rw [hs.postorder_eq hn, List.mem_append, List.mem_flatMap, List.mem_singleton]
  constructor
  · rintro (⟨y, hy, hx⟩ | rfl)
    · exact Relation.ReflTransGen.tail ((ih y hy).mp hx) (hs.forest.parent_of_mem hn hy)
    · exact Relation.ReflTransGen.refl
  · intro hup
    rcases Relation.ReflTransGen.cases_tail hup with he | ⟨y, hxy, hy⟩
    · exact Or.inr he.symm
    · have hmem := hs.forest.mem_of_parent hy hn
      exact Or.inl ⟨y, hmem, (ih y hmem).mpr hxy⟩

/-- What a walk finds are nodes. -/
theorem contains_of_mem_postorder (hs : t.Sound P) (hn : t.find? h = some node)
    (hx : x ∈ t.postorder h) : t.contains x = true := by
  rcases Relation.ReflTransGen.cases_head ((hs.mem_postorder_iff hn).mp hx) with
    rfl | ⟨q, ⟨below, hb, -⟩, -⟩
  · exact contains_iff.mpr ⟨node, hn⟩
  · exact contains_iff.mpr ⟨below, hb⟩

theorem accounts_foldr_release (ha : t.Accounts) (hs : List Handle) :
    (hs.foldr (fun h t => t.release h) t).Accounts := by
  induction hs with
  | nil => exact ha
  | cons h hs ih => exact ih.release h

/-- **Deleting a detached node with its subtree keeps a tree sound.** -/
theorem released (hs : t.Sound P) (hn : t.find? h = some node) (hd : node.parent = none) :
    ((t.postorder h).foldr (fun h t => t.release h) t).Sound P := by
  have hfind := find?_foldr_release t (t.postorder h)
  have hgone : ∀ x, View.Above t.find? h x →
      ((t.postorder h).foldr (fun h t => t.release h) t).find? x = none := fun x hx => by
    rw [hfind, if_pos ((hs.mem_postorder_iff hn).mpr hx)]
  have hkept : ∀ x, ¬View.Above t.find? h x →
      ((t.postorder h).foldr (fun h t => t.release h) t).find? x = t.find? x := fun x hx => by
    rw [hfind, if_neg fun hm => hx ((hs.mem_postorder_iff hn).mp hm)]
  have hold : ∀ x node', ((t.postorder h).foldr (fun h t => t.release h) t).find? x =
      some node' → ¬View.Above t.find? h x ∧ t.find? x = some node' := fun x node' hx => by
    by_cases hup : View.Above t.find? h x
    · rw [hgone x hup] at hx
      exact nomatch hx
    · exact ⟨hup, hkept x hup ▸ hx⟩
  refine ⟨⟨accounts_foldr_release hs.accounts _, hs.forest.prune hn hd hgone hkept⟩,
    fun x node' hx => ?_, fun x node' hx => hs.allowed x node' (hold x node' hx).2⟩
  obtain ⟨hup, hx⟩ := hold x node' hx
  -- A link of a node that stays has that node for its parent, and so it stays as well.
  refine (hs.shaped x node' hx).congr fun y hy => ?_
  have hyx := hs.forest.parent_of_mem hx hy
  rw [kind?, kind?, hkept y fun hy => ?_]
  rcases Relation.ReflTransGen.cases_head hy with rfl | ⟨q, hq, hqh⟩
  · exact View.not_parent_of_detached hn hd hyx
  · exact hup (hq.unique hyx ▸ hqh)

end Sound

end Tree

end AcpiTables
