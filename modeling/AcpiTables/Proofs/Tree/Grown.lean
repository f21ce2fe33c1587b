import AcpiTables.Proofs.Tree.Reachable

/-!
# Nodes that come and go

What a handle denotes is all that can be seen of a tree. Which slots there are, how often they
were used and in which order they will be used again does not matter: two trees in which every
handle denotes the same have as many nodes, and the nodes have the same bytes
(`AcpiTables.Tree.SameNodes`).

A declaration makes new nodes and leaves the others as they are (`AcpiTables.Tree.Grown`). From
there it goes one of two ways. The new object is attached under a node that was there before,
which is never refused on account of a cycle, because nothing that was there before is below a
new node (`AcpiTables.Tree.Grown.not_above`). Or the new nodes are deleted again, and then the
tree has the nodes that it had (`AcpiTables.Tree.Grown.delete`).

| fact | theorem |
|---|---|
| the count follows from what handles denote | `AcpiTables.Tree.SameNodes.live_eq` |
| and so do the bytes | `AcpiTables.Tree.SameNodes.encode_eq` |
| the same nodes and books are the same tree | `AcpiTables.Tree.SameBooks.eq_of_sameNodes` |
| deleting what was made undoes it | `AcpiTables.Tree.Grown.delete` |
| what was made can be attached | `AcpiTables.Tree.Grown.attachable` |
-/

namespace AcpiTables.Tree

variable {t t' t₀ t₁ : Tree} {h p x : Handle} {ns ms : List Handle} {node above : Node}
  {P P' : Kind → Prop}

/-! ### Counting nodes -/

/-- The place of a slot is its number. -/
theorem Accounts.toNat_index (ha : t.Accounts) {i : Nat} (hi : i < t.slots.length) :
    (UInt32.ofNat i).toNat = i := by
  rw [UInt32.toNat_ofNat']
  exact Nat.mod_eq_of_lt (Nat.lt_of_lt_of_le hi ha.fits)

/-- The nodes can be listed, each once, and there are as many as the arena counts. -/
theorem Accounts.exists_handles (ha : t.Accounts) : ∃ hs : List Handle,
    hs.Nodup ∧ (∀ x, x ∈ hs ↔ t.contains x = true) ∧ hs.length = t.live := by
  -- One node is taken away after the other, until none is left to count.
  induction hlive : t.live generalizing t with
  | zero =>
    refine ⟨[], List.nodup_nil, fun x => ?_, rfl⟩
    constructor
    · intro hx
      exact absurd hx List.not_mem_nil
    · intro hx
      have hle := ha.length_le_live (List.nodup_singleton x) (by simpa using hx)
      rw [List.length_singleton] at hle
      omega
  | succ n ih =>
    have hpos : 0 < t.slots.countP fun slot => slot.node.isSome := by
      rw [← ha.live_eq, hlive]
      exact Nat.succ_pos n
    obtain ⟨slot, hmem, hsome⟩ := List.countP_pos_iff.mp hpos
    obtain ⟨i, hi, hget⟩ := List.getElem_of_mem hmem
    obtain ⟨node, hnode⟩ := Option.isSome_iff_exists.mp hsome
    have hindex := ha.toNat_index hi
    have hn : t.find? ⟨UInt32.ofNat i, slot.generation⟩ = some node := by
      rw [find?_eq_some_iff]
      simp only [hindex, List.getElem?_eq_getElem hi, hget, ← hnode]
    generalize (⟨UInt32.ofNat i, slot.generation⟩ : Handle) = h at hn
    have hstep := ha.live_release (contains_iff.mpr ⟨node, hn⟩)
    obtain ⟨hs, hnd, hiff, hlen⟩ := ih (ha.release h) (by omega)
    refine ⟨h :: hs, List.nodup_cons.mpr ⟨fun hh => ?_, hnd⟩, fun x => ?_, by simp [hlen]⟩
    · have hgone := (hiff h).mp hh
      rw [contains, find?_release, if_pos rfl] at hgone
      exact Bool.false_ne_true hgone
    · rw [List.mem_cons, hiff, contains, contains, find?_release]
      by_cases hx : x = h
      · simp [hx, hn]
      · simp [hx]

/-- More handles denote nodes only if there are more nodes. -/
theorem Accounts.live_le (ha : t.Accounts) (ha' : t'.Accounts)
    (hsub : ∀ x, t.contains x = true → t'.contains x = true) : t.live ≤ t'.live := by
  obtain ⟨hs, hnd, hiff, hlen⟩ := ha.exists_handles
  rw [← hlen]
  exact ha'.length_le_live hnd fun x hx => hsub x ((hiff x).mp hx)

/-! ### The same nodes -/

/-- **Every handle denotes the same** in two trees. -/
def SameNodes (t t' : Tree) : Prop := ∀ x, t'.find? x = t.find? x

namespace SameNodes

theorem refl (t : Tree) : t.SameNodes t := fun _ => rfl

theorem contains_eq (hsame : t.SameNodes t') (x : Handle) : t'.contains x = t.contains x := by
  rw [contains, contains, hsame]

/-- **Trees with the same nodes count the same.** -/
theorem live_eq (hsame : t.SameNodes t') (ha : t.Accounts) (ha' : t'.Accounts) :
    t'.live = t.live := by
  refine Nat.le_antisymm (ha'.live_le ha fun x hx => ?_) (ha.live_le ha' fun x hx => ?_)
  · rwa [hsame.contains_eq] at hx
  · rwa [hsame.contains_eq]

theorem encodeWithin_eq (hsame : t.SameNodes t') (bound : Nat) :
    t'.encodeWithin bound = t.encodeWithin bound := by
  induction bound with
  | zero => rfl
  | succ bound ih =>
    funext x
    simp only [encodeWithin, hsame x, ih]

/-- **Trees with the same nodes have the same bytes.** -/
theorem encode_eq (hsame : t.SameNodes t') (ha : t.Accounts) (ha' : t'.Accounts) (x : Handle) :
    t'.encode x = t.encode x := by
  rw [encode, encode, node, node, hsame x, hsame.live_eq ha ha', hsame.encodeWithin_eq]

end SameNodes

/-! ### The same books -/

/-- **Two trees with the same books**: as many slots, each used as often as the other's, the same
stack of empty ones and the same count. Only the nodes in the slots may differ. -/
structure SameBooks (t t' : Tree) : Prop where
  /-- Each slot was used as often. -/
  generations : t'.slots.map Slot.generation = t.slots.map Slot.generation
  /-- The empty slots are stacked in the same order. -/
  free : t'.free = t.free
  /-- The count is the same. -/
  live : t'.live = t.live

namespace SameBooks

theorem trans (hb : t.SameBooks t₁) (hb' : t₁.SameBooks t') : t.SameBooks t' where
  generations := hb'.generations.trans hb.generations
  free := hb'.free.trans hb.free
  live := hb'.live.trans hb.live

/-- Changing a node leaves the books alone. -/
theorem modify (t : Tree) (h : Handle) (f : Node → Node) : t.SameBooks (t.modify h f) := by
  unfold Tree.modify
  cases hn : t.find? h with
  | none => exact ⟨rfl, rfl, rfl⟩
  | some node =>
    obtain ⟨hlt, hget⟩ := List.getElem?_eq_some_iff.mp (find?_eq_some_iff.mp hn)
    refine ⟨List.ext_getElem? fun i => ?_, rfl, rfl⟩
    by_cases hi : h.index.toNat = i
    · subst hi
      simp [hlt, hget]
    · simp [hi]

theorem relink (t : Tree) (p : Handle) (change : Content → Content) (h : Handle)
    (parent : Option Handle) : t.SameBooks (t.relink p change h parent) :=
  (modify t p _).trans (modify _ h _)

theorem exchanged (t : Tree) (p old new : Handle) (position : Position) :
    t.SameBooks (t.exchanged p old new position) :=
  (relink t p _ old none).trans (modify _ new _)

/-- **Trees with the same nodes and the same books are the same.** A slot that differed in its
node would have a handle to tell them apart. -/
theorem eq_of_sameNodes (hb : t.SameBooks t') (ha : t.Accounts) (hsame : t.SameNodes t') :
    t' = t := by
  have hlen : t'.slots.length = t.slots.length := by
    simpa using congrArg List.length hb.generations
  have hslots : t'.slots = t.slots := by
    refine List.ext_getElem hlen fun i hi' hi => ?_
    have hgen : t'.slots[i].generation = t.slots[i].generation := by
      have := List.getElem_of_eq hb.generations (by simpa using hi')
      simpa using this
    have hfind := hsame ⟨UInt32.ofNat i, t.slots[i].generation⟩
    simp only [find?, ha.toNat_index hi, List.getElem?_eq_getElem hi, List.getElem?_eq_getElem hi',
      Option.bind_eq_bind, Option.bind_some, hgen, if_true] at hfind
    generalize t'.slots[i] = slot' at hgen hfind
    generalize t.slots[i] = slot at hgen hfind
    cases slot
    cases slot'
    simp_all
  cases t
  cases t'
  simp only [Tree.mk.injEq]
  exact ⟨hslots, hb.free, hb.live⟩

end SameBooks

/-! ### New nodes -/

/-- **A handle is new**: it denotes a node, and it denoted none. -/
structure IsNew (t : Tree) (h : Handle) (t' : Tree) : Prop where
  /-- The handle denoted no node. -/
  not_contains : t.contains h = false
  /-- It denotes one now. -/
  contains : t'.contains h = true

theorem isNew_of_find? (hnew : t.find? h = none) (hn : t'.find? h = some node) : t.IsNew h t' where
  not_contains := by
    rw [Tree.contains, hnew]
    rfl
  contains := contains_iff.mpr ⟨node, hn⟩

/-- **New nodes in an otherwise untouched tree.** -/
structure Grown (t₀ : Tree) (ns : List Handle) (t : Tree) : Prop where
  /-- The handles of the new nodes denoted nothing. -/
  new : ∀ x ∈ ns, t₀.find? x = none
  /-- All other handles denote what they did. -/
  kept : ∀ x, x ∉ ns → t.find? x = t₀.find? x

/-- A node that was there is no new one. -/
theorem Grown.not_mem (hg : Grown t₀ ns t) (hx : t₀.find? x = some node) : x ∉ ns := fun hmem => by
  rw [hg.new x hmem] at hx
  exact nomatch hx

/-- A new node that is there has a new handle. -/
theorem Grown.isNew (hg : Grown t₀ ns t) (hmem : h ∈ ns) (hn : t.find? h = some node) :
    t₀.IsNew h t := isNew_of_find? (hg.new h hmem) hn

/-- What was there is there, unchanged. -/
theorem Grown.find?_old (hg : Grown t₀ ns t) (hx : t₀.find? x = some node) :
    t.find? x = some node := by
  rw [hg.kept x (hg.not_mem hx), hx]

theorem Grown.trans (hg : Grown t₀ ns t₁) (hg' : Grown t₁ ms t) : Grown t₀ (ms ++ ns) t where
  new x hx := by
    by_cases hns : x ∈ ns
    · exact hg.new x hns
    · rcases List.mem_append.mp hx with hms | hns'
      · rw [← hg.kept x hns, hg'.new x hms]
      · exact absurd hns' hns
  kept x hx := by
    rw [List.mem_append, not_or] at hx
    rw [hg'.kept x hx.1, hg.kept x hx.2]

/-- The new nodes may change. -/
theorem Grown.change (hg : Grown t₀ ns t₁) (hkept : ∀ x, x ∉ ns → t.find? x = t₁.find? x) :
    Grown t₀ ns t where
  new := hg.new
  kept x hx := (hkept x hx).trans (hg.kept x hx)

theorem Accounts.grown_allocate (ha : t.Accounts) (content : Content)
    (hfit : (t.allocate content).2.Fits) :
    Grown t [(t.allocate content).1] (t.allocate content).2 where
  new x hx := by
    rw [List.mem_singleton.mp hx]
    exact ha.find?_allocate_fst content hfit
  kept x hx := by
    rw [List.mem_singleton] at hx
    rw [ha.find?_allocate content hfit, if_neg hx]

theorem Accounts.isNew_allocate (ha : t.Accounts) (content : Content)
    (hfit : (t.allocate content).2.Fits) :
    t.IsNew (t.allocate content).1 (t.allocate content).2 :=
  (ha.grown_allocate content hfit).isNew List.mem_cons_self
    ((ha.find?_allocate content hfit _).trans (if_pos rfl))

theorem Labelled.grown {bytes : Bytes} {content : Handle → Content} {label object : Handle}
    (hl : t.Labelled bytes content label object t') : Grown t [object, label] t' where
  new x hx := by
    rcases List.mem_cons.mp hx with rfl | hx
    · exact hl.find_object
    · rw [List.mem_singleton.mp hx]
      exact hl.find_label
  kept x hx := by
    simp only [List.mem_cons, List.not_mem_nil, or_false, not_or] at hx
    rw [hl.find?, if_neg hx.2, if_neg hx.1]

/-- A new region and its label. -/
theorem Accounts.grown_makeRegion (ha : t.Accounts) {kind : Region} {name : String} {bytes : Bytes}
    (hname : Aml.objectName name (kind == .scope) = .ok bytes)
    (hfit : (after (makeRegion kind name) t).Fits) :
    ∃ h label t', makeRegion kind name t = .ok h t' ∧ Grown t [h, label] t' ∧
      t'.find? h = some ⟨.region kind label [], none⟩ ∧
      t'.find? label = some ⟨.data .nameString bytes, some h⟩ := by
  have hfit' := (grows_makeRegion hname t).fits hfit
  have hl := ha.labelled bytes (fun label => .region kind label []) hfit'
  refine ⟨_, _, _, makeRegion_ok ha hname hfit', hl.grown, ?_, ?_⟩
  · rw [hl.find?, if_neg hl.label_ne.symm, if_pos rfl]
  · rw [hl.find?, if_pos rfl]

/-- **A new `Name` that took over a value.** -/
structure Named (t : Tree) (bytes : Bytes) (content : Content) (value label h : Handle)
    (t' : Tree) : Prop where
  /-- The label is new. -/
  find_label : t.find? label = none
  /-- The `Name` is new. -/
  find_object : t.find? h = none
  /-- The `Name` is there, detached. -/
  found : t'.find? h = some ⟨.name label value, none⟩
  /-- The `Name` owns its label. -/
  found_label : t'.find? label = some ⟨.data .nameString bytes, some h⟩
  /-- And it owns its value. -/
  found_value : t'.find? value = some ⟨content, some h⟩
  /-- Nothing else has changed. -/
  kept : ∀ x, x ≠ value → x ≠ label → x ≠ h → t'.find? x = t.find? x

/-- What was there is still there, but for the owner of the value. -/
theorem Named.find?_old {bytes : Bytes} {content : Content} {value label : Handle}
    (hm : t.Named bytes content value label h t') (hxv : x ≠ value)
    (hx : t.find? x = some node) : t'.find? x = some node := by
  have hxl : x ≠ label := by
    rintro rfl
    exact nomatch hm.find_label.symm.trans hx
  have hxh : x ≠ h := by
    rintro rfl
    exact nomatch hm.find_object.symm.trans hx
  rw [hm.kept x hxv hxl hxh, hx]

/-- A `Name` can be made of a detached value. -/
theorem Accounts.named (ha : t.Accounts) {name : String} {bytes : Bytes} {value : Handle}
    {content : Content} (hv : t.find? value = some ⟨content, none⟩) (hk : content.kind.isValue)
    (hname : Aml.objectName name false = .ok bytes)
    (hfit : (after (makeName name value) t).Fits) :
    ∃ h label t', makeName name value t = .ok h t' ∧ t.Named bytes content value label h t' := by
  have hfit' := (grows_makeName hname hv rfl hk).fits hfit
  rw [makeName_ok ha hname hv rfl hk hfit']
  have hl := ha.labelled bytes (fun label => .name label value) hfit'
  -- The label and the `Name` are new, so neither is the value that gets an owner.
  generalize t.withLabel bytes (fun label => .name label value) = made at hl
  obtain ⟨label, h, t'⟩ := made
  have hvl : label ≠ value := by
    rintro rfl
    exact nomatch hl.find_label.symm.trans hv
  have hvh : h ≠ value := by
    rintro rfl
    exact nomatch hl.find_object.symm.trans hv
  refine ⟨h, label, _, rfl, hl.find_label, hl.find_object, ?_, ?_, ?_, fun x hxv hxl hxh => ?_⟩
  · rw [find?_modify, if_neg hvh, hl.find?, if_neg hl.label_ne.symm, if_pos rfl]
  · rw [find?_modify, if_neg hvl, hl.find?, if_pos rfl]
  · rw [find?_modify, if_pos rfl, hl.find?_old hv]
    rfl
  · rw [find?_modify, if_neg hxv, hl.find?, if_neg hxl, if_neg hxh]

/-- **A new `Name` of a new value.** -/
theorem Grown.named {bytes : Bytes} {content : Content} {value label : Handle}
    (hg : Grown t₀ ns t) (hmem : value ∈ ns) (hm : t.Named bytes content value label h t') :
    Grown t₀ (h :: label :: ns) t' := by
  have hnew : ∀ x, t.find? x = none → t₀.find? x = none := fun x hx => by
    by_cases hns : x ∈ ns
    · exact hg.new x hns
    · rw [← hg.kept x hns, hx]
  refine ⟨fun x hx => ?_, fun x hx => ?_⟩
  · rcases List.mem_cons.mp hx with rfl | hx
    · exact hnew x hm.find_object
    · rcases List.mem_cons.mp hx with rfl | hx
      · exact hnew x hm.find_label
      · exact hg.new x hx
  · simp only [List.mem_cons, not_or] at hx
    have hxv : x ≠ value := by
      rintro rfl
      exact hx.2.2 hmem
    rw [hm.kept x hxv hx.2.1 hx.1, hg.kept x hx.2.2]

/-! ### Deleting new nodes -/

/-- **Deleting the new nodes undoes that they were made.** -/
theorem Grown.delete (hg : Grown t₀ ns t) (hn : t.find? h = some node) (hd : node.parent = none)
    (hall : ∀ x, x ∈ t.postorder h ↔ x ∈ ns) :
    ∃ t', delete h t = .ok () t' ∧ t₀.SameNodes t' := by
  refine ⟨_, delete_ok hn hd, fun x => ?_⟩
  rw [find?_foldr_release]
  by_cases hx : x ∈ ns
  · rw [if_pos ((hall x).mpr hx), hg.new x hx]
  · rw [if_neg fun hmem => hx ((hall x).mp hmem), hg.kept x hx]

/-- The subtree of a node without links is the node. -/
theorem Ordered.postorder_leaf (ho : t.Ordered) (hn : t.find? h = some node)
    (hleaf : node.content.links = []) : t.postorder h = [h] := by
  rw [ho.postorder_eq hn, hleaf]
  rfl

/-! ### Attaching new nodes -/

/-- Whether a buffer ends in an End Tag does not change as long as its items are there. -/
theorem endsInTag_of_kept (ho : t.Ordered) (hp : t.find? p = some above)
    (hkept : ∀ x node, t.find? x = some node → t'.find? x = some node) :
    t'.endsInTag above.content = t.endsInTag above.content := by
  cases hc : above.content with
  | buffer items =>
    rw [endsInTag, endsInTag]
    cases hlast : items.getLast? with
    | none => rfl
    | some x =>
      have hmem : x ∈ above.content.links := by
        rw [hc]
        exact List.mem_of_getLast? hlast
      obtain ⟨node, hx⟩ := ho.exists_of_mem hp hmem
      rw [Option.any_some, Option.any_some, isEndTag_eq hx, isEndTag_eq (hkept x node hx)]
  | _ => rfl

/-- Nothing is attached below itself. -/
theorem Attachable.ne (ha : t.Attachable p h above node) : p ≠ h := by
  rintro rfl
  have hup : t.isAbove p p = true := by
    rw [isAbove, lineage, lineageWithin]
    cases (t.find? p).bind Node.parent <;> simp
  exact Bool.false_ne_true (ha.not_above.symm.trans hup)

/-- What handles denote once a node is attached. -/
theorem Attachable.find?_attached (ha : t.Attachable p h above node) (x : Handle) :
    (t.attached p h above).find? x = if x = h then some { node with parent := some p }
      else if x = p then some { above with
        content := above.content.mapChildren fun children =>
          insertItem (t.endsInTag above.content) children h }
      else t.find? x :=
  find?_relink ha.find_parent ha.find_node ha.ne _ _ x

/-- Attaching a node changes no kind. -/
theorem Attachable.kind?_attached (ha : t.Attachable p h above node) (x : Handle) :
    (t.attached p h above).kind? x = t.kind? x :=
  Sound.kind?_relink ha.find_parent ha.find_node ha.ne (Content.kind_mapChildren _ _) _ x

/-- **Nothing that was there is below a new node.** -/
theorem Grown.not_above (hg : Grown t₀ ns t) (ho₀ : t₀.Ordered) (ho : t.Ordered)
    (hp : t₀.find? p = some above) (hh : h ∈ ns) : t.isAbove h p = false := by
  -- On the way up one meets old nodes only: an old node has the parent that it had.
  have hold : ∀ y, View.Above t.find? y p → ∃ node, t₀.find? y = some node := by
    intro y hy
    induction hy with
    | refl => exact ⟨above, hp⟩
    | tail _ hyz ih =>
      obtain ⟨node, hn⟩ := ih
      have hpar := (View.parent_iff (hg.find?_old hn)).mp hyz
      obtain ⟨owner, howner, -⟩ := (ho₀.forest.parent_iff_lists _ _).mp ⟨node, hn, hpar⟩
      exact ⟨owner, howner⟩
  refine Bool.eq_false_iff.mpr fun hup => ?_
  obtain ⟨node, hn⟩ := hold h (ho.isAbove_iff.mp hup)
  exact hg.not_mem hn hh

/-- **A new node can be attached** under one that was there, if that one holds such nodes. -/
theorem Grown.attachable (hg : Grown t₀ ns t) (ho₀ : t₀.Ordered) (ho : t.Ordered)
    (hp : t₀.find? p = some above) (hh : h ∈ ns) (hn : t.find? h = some node)
    (hd : node.parent = none) (hacc : above.content.accepts node.content)
    (hone : t.endsInTag above.content = true → t.isEndTag h = false) :
    t.Attachable p h above node where
  find_parent := hg.find?_old hp
  find_node := hn
  detached := hd
  not_above := hg.not_above ho₀ ho hp hh
  accepts := hacc
  one_end_tag := hone

end AcpiTables.Tree
