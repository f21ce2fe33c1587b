import AcpiTables.Proofs.Assembly
import AcpiTables.Proofs.Tree.Grown

/-!
# Attaching and detaching

A detached node can be attached where there is a place for it: an object in a region, and a
descriptor in a buffer, unless it would be a second End Tag. `AcpiTables.Assembly.HasPlace` says so
of all the items of a buffer. The request looks at the last item alone, and in a tree that requests
make it sees what there is (`AcpiTables.Assembly.endsInTag_iff`).

Two nodes change then and no other: the parent has other children, and the node has another owner
(`AcpiTables.Tree.Moved`). The books of the arena are the same as before. Detaching the node again
changes the same two nodes back, and two trees with the same nodes and the same books are the same
(`AcpiTables.Tree.SameBooks.eq_of_sameNodes`), so that nothing is left of the two requests.

| result | theorem |
|---|---|
| which nodes are attached, and where they come to stand | `AcpiTables.Assembly.attaching` |
| which nodes are detached | `AcpiTables.Assembly.detaching` |
| detaching undoes attaching | `AcpiTables.Assembly.detach_attached` |
| both in the trees that requests make | `AcpiTables.Assembly.attachesDetaches_run` |
-/

namespace AcpiTables

namespace Tree

variable {t t' : Tree} {h p : Handle} {node above : Node}

/-! ### What changes -/

/-- **A node got another owner**, and another node other children. Nothing else happened. -/
structure Moved (t : Tree) (p : Handle) (old new : List Handle) (h : Handle)
    (parent : Option Handle) (t' : Tree) : Prop where
  /-- The children of the one node before. -/
  old_children : t.children p = .ok old
  /-- Its children afterwards. -/
  new_children : t'.children p = .ok new
  /-- That node has the same opcode. -/
  opcode : t'.opcode p = t.opcode p
  /-- It has the same fixed arguments. -/
  argument : ∀ place, t'.argument p place = t.argument p place
  /-- It has the same owner. -/
  owner : t'.parent p = t.parent p
  /-- The other node has its new owner, if any. -/
  parent : t'.parent h = .ok parent
  /-- It is otherwise the same. -/
  content : t'.content h = t.content h
  /-- All other nodes are the same. -/
  kept : ∀ x, x ≠ p → x ≠ h → t'.find? x = t.find? x
  /-- The books are the same. -/
  books : t.SameBooks t'

theorem moved_relink (hp : t.find? p = some above) (hn : t.find? h = some node) (hne : p ≠ h)
    {f : List Handle → List Handle} (hdata : ∀ type bytes, above.content ≠ .data type bytes)
    (hname : ∀ label value, above.content ≠ .name label value) (parent : Option Handle) :
    t.Moved p above.content.children (f above.content.children) h parent
      (t.relink p (·.mapChildren f) h parent) := by
  have hfind := find?_relink hp hn hne (·.mapChildren f) parent
  have hp' := (hfind p).trans ((if_neg hne).trans (if_pos rfl))
  have hn' := (hfind h).trans (if_pos rfl)
  refine ⟨children_eq hp, (children_eq hp').trans ?_, ?_, fun place => ?_, ?_, parent_eq hn', ?_,
    fun x hxp hxh => ?_, SameBooks.relink t p _ h parent⟩
  · rw [Content.children_mapChildren hdata hname]
  · rw [opcode_eq hp', opcode_eq hp, Content.opcode_mapChildren]
  · rw [argument_eq hp', argument_eq hp, Content.fixedArguments_mapChildren]
  · rw [parent_eq hp', parent_eq hp]
  · rw [content_eq hn', content_eq hn]
  · rw [hfind, if_neg hxh, if_neg hxp]

/-- A node is a fixed argument of an object. -/
def IsArgument (t : Tree) (h : Handle) : Prop := ∃ p place, t.argument p place = .ok (some h)

/-- What has an owner is a child of it or a fixed argument, and not both. -/
theorem mem_children_iff (hf : View.Forest t.find?) (hn : t.find? h = some node)
    (hpar : node.parent = some p) (hp : t.find? p = some above) :
    h ∈ above.content.children ↔ ¬t.IsArgument h := by
  have hup : View.Parent t.find? h p := ⟨node, hn, hpar⟩
  constructor
  · rintro hmem ⟨q, place, harg⟩
    obtain ⟨other, hq, hplace⟩ := argument_eq_ok_iff.mp harg
    have hfixed : h ∈ other.content.fixedArguments := List.mem_of_getElem? hplace
    -- The object is the owner, which would list the node twice.
    obtain rfl := hup.unique (hf.parent_of_mem hq (List.mem_append_left _ hfixed))
    obtain rfl := Option.some.inj (hp.symm.trans hq)
    exact (List.nodup_append.mp (hf.nodup_links p above hp)).2.2 h hfixed h hmem rfl
  · intro hnot
    rcases List.mem_append.mp (hf.mem_of_parent hup hp) with hfixed | hmem
    · obtain ⟨place, hplace⟩ := List.mem_iff_getElem?.mp hfixed
      exact absurd ⟨p, place, argument_eq_ok_iff.mpr ⟨above, hp, hplace⟩⟩ hnot
    · exact hmem

end Tree

namespace Assembly

variable {t : Tree} {h p : Handle} {node above : Node}

/-! ### Where there is a place -/

/-- **There is a place for a node** under another. -/
inductive HasPlace (t : Tree) (p h : Handle) : Prop
  /-- For an object in a region. -/
  | member {kind : Region} {opcode : Opcode} : t.opcode p = .ok (some (.region kind)) →
    t.opcode h = .ok (some opcode) → HasPlace t p h
  /-- For a descriptor in a buffer, unless it is an End Tag and the buffer has one already. -/
  | item {items : List Handle} : t.opcode p = .ok (some .buffer) → t.children p = .ok items →
    t.dataType h = .ok (some .resourceData) →
    (HoldsEndTag t h → ∀ x ∈ items, ¬HoldsEndTag t x) → HasPlace t p h

/-- **The children with one more**: it comes last, but in front of an End Tag. -/
inductive Appended (t : Tree) (h : Handle) : List Handle → List Handle → Prop
  /-- There is no End Tag. -/
  | last {children : List Handle} : (∀ x ∈ children, ¬HoldsEndTag t x) →
    Appended t h children (children ++ [h])
  /-- There is one, which is the last child. -/
  | beforeEndTag {front : List Handle} {endTag : Handle} : HoldsEndTag t endTag →
    Appended t h (front ++ [endTag]) (front ++ [h, endTag])

/-- **The last item tells whether any is an End Tag.** -/
theorem endsInTag_iff (hs : t.Sound IsChecked) (hp : t.find? p = some above) :
    t.endsInTag above.content = true ↔ ∃ x ∈ above.content.children, HoldsEndTag t x := by
  obtain ⟨content, parent⟩ := above
  cases content with
  | data type bytes =>
    refine iff_of_false Bool.false_ne_true ?_
    rintro ⟨x, hx, -⟩
    exact List.not_mem_nil hx
  | name label value =>
    refine iff_of_false Bool.false_ne_true ?_
    rintro ⟨x, hx, -⟩
    exact List.not_mem_nil hx
  | buffer items =>
    constructor
    · intro hends
      obtain ⟨x, hlast, htag⟩ := Option.any_eq_true _ _ |>.mp hends
      exact ⟨x, List.mem_of_getLast? hlast, (isEndTag_iff hs x).mp htag⟩
    · rintro ⟨x, hx, htag⟩
      obtain ⟨front, back, hi⟩ := List.append_of_mem hx
      obtain rfl := eq_nil_of_holdsEndTag hs hp hi htag
      have hitems : items = front ++ [x] := hi
      rw [Tree.endsInTag, hitems, List.getLast?_concat, Option.any_some]
      exact (isEndTag_iff hs x).mpr htag
  | region kind label members =>
    -- The members are objects, and an End Tag is data.
    refine iff_of_false Bool.false_ne_true ?_
    rintro ⟨x, hx, _, _, htag⟩
    have hobject := (hs.shaped p _ hp).2 x hx
    rw [Tree.kind?_eq htag] at hobject
    exact Bool.false_ne_true hobject

/-- A node fits a place if the parent accepts it, and if it is no second End Tag. -/
theorem hasPlace_iff (hs : t.Sound IsChecked) (hp : t.find? p = some above)
    (hn : t.find? h = some node) : HasPlace t p h ↔ above.content.accepts node.content = true ∧
      (t.endsInTag above.content = true → t.isEndTag h = false) := by
  constructor
  · rintro (⟨hregion, hobject⟩ | ⟨hbuffer, hitems, hdata, hone⟩)
    · rw [Tree.opcode_eq hp, Except.ok.injEq] at hregion
      rw [Tree.opcode_eq hn, Except.ok.injEq] at hobject
      obtain ⟨label, members, hc⟩ := Content.opcode_eq_region_iff.mp hregion
      rw [hc, Content.accepts_region, Content.isObject_kind_iff]
      exact ⟨⟨_, hobject⟩, nofun⟩
    · rw [Tree.opcode_eq hp, Except.ok.injEq] at hbuffer
      rw [Tree.children_eq hp, Except.ok.injEq] at hitems
      rw [Tree.dataType_eq hn, Except.ok.injEq] at hdata
      obtain ⟨items, hc⟩ := Content.opcode_eq_buffer_iff.mp hbuffer
      refine ⟨?_, fun hends => ?_⟩
      · rw [hc, Content.accepts_buffer, Content.isDescriptor_kind_iff]
        exact hdata
      · obtain ⟨x, hx, htag⟩ := (endsInTag_iff hs hp).mp hends
        exact Bool.eq_false_iff.mpr fun hend =>
          hone ((isEndTag_iff hs h).mp hend) x (hitems ▸ hx) htag
  · rintro ⟨hacc, hone⟩
    cases hc : above.content with
    | data type bytes => exact absurd hc (Content.ne_data_of_accepts hacc type bytes)
    | name label value => exact absurd hc (Content.ne_name_of_accepts hacc label value)
    | buffer items =>
      rw [hc, Content.accepts_buffer, Content.isDescriptor_kind_iff] at hacc
      refine .item (by rw [Tree.opcode_eq hp, hc]; rfl) (Tree.children_eq hp)
        (by rw [Tree.dataType_eq hn, hacc]) fun hend x hx htag => ?_
      have hnot := hone ((endsInTag_iff hs hp).mpr ⟨x, hx, htag⟩)
      exact Bool.eq_false_iff.mp hnot ((isEndTag_iff hs h).mpr hend)
    | region kind label members =>
      rw [hc, Content.accepts_region, Content.isObject_kind_iff] at hacc
      obtain ⟨opcode, hobject⟩ := hacc
      exact .member (by rw [Tree.opcode_eq hp, hc]; rfl) (by rw [Tree.opcode_eq hn, hobject])

/-! ### Attaching -/

/-- **What attaching does**, asked of a parent and a node. -/
structure Attaching (t : Tree) (p h : Handle) : Prop where
  /-- It succeeds exactly if both are there, the node is detached and not above the parent, and
  there is a place for it. -/
  succeeds_iff : (∃ t', Tree.attach p h t = .ok () t') ↔ t.contains p = true ∧
    t.parent h = .ok none ∧ ¬View.Above t.find? h p ∧ HasPlace t p h
  /-- The parent has one more child, and the node has the parent for its owner. -/
  attached : ∀ t', Tree.attach p h t = .ok () t' →
    ∃ old new, Appended t h old new ∧ t.Moved p old new h (some p) t'
  /-- Adding a descriptor to a buffer is attaching it. -/
  descriptor : t.opcode p = .ok (some .buffer) → Tree.appendDescriptor p h t = Tree.attach p h t
  /-- A descriptor is added to nothing but a buffer. -/
  not_buffer : t.opcode p ≠ .ok (some .buffer) → ∃ e, Tree.appendDescriptor p h t = .error e t
  /-- Detaching the node again leaves the tree as it was. -/
  undone : ∀ t', Tree.attach p h t = .ok () t' → Tree.detach h t' = .ok () t

/-- Attaching succeeds if the node can be attached. -/
theorem attach_eq_ok_iff : (∃ t', Tree.attach p h t = .ok () t') ↔
    ∃ above node, t.Attachable p h above node := by
  constructor
  · rintro ⟨t', hok⟩
    rcases Tree.attach_cases p h t with ⟨e, herr⟩ | ⟨above, node, ha, -⟩
    · exact nomatch hok.symm.trans herr
    · exact ⟨above, node, ha⟩
  · rintro ⟨above, node, ha⟩
    exact ⟨_, Tree.attach_ok ha⟩

theorem attachable_iff (hs : t.Sound IsChecked) : (∃ above node, t.Attachable p h above node) ↔
    t.contains p = true ∧ t.parent h = .ok none ∧ ¬View.Above t.find? h p ∧ HasPlace t p h := by
  rw [← hs.isAbove_iff, Bool.not_eq_true, Tree.contains_iff, Tree.parent_eq_ok_iff]
  constructor
  · rintro ⟨above, node, ha⟩
    exact ⟨⟨above, ha.find_parent⟩, ⟨node, ha.find_node, ha.detached⟩, ha.not_above,
      (hasPlace_iff hs ha.find_parent ha.find_node).mpr ⟨ha.accepts, ha.one_end_tag⟩⟩
  · rintro ⟨⟨above, hp⟩, ⟨node, hn, hd⟩, hna, hplace⟩
    obtain ⟨hacc, hone⟩ := (hasPlace_iff hs hp hn).mp hplace
    exact ⟨above, node, hp, hn, hd, hna, hacc, hone⟩

/-- The node comes last, or in front of the End Tag. -/
theorem appended_insertItem (hs : t.Sound IsChecked) (hp : t.find? p = some above) (h : Handle) :
    Appended t h above.content.children
      (Tree.insertItem (t.endsInTag above.content) above.content.children h) := by
  cases hends : t.endsInTag above.content with
  | false =>
    refine .last fun x hx htag => ?_
    exact Bool.eq_false_iff.mp hends ((endsInTag_iff hs hp).mpr ⟨x, hx, htag⟩)
  | true =>
    obtain ⟨x, hx, htag⟩ := (endsInTag_iff hs hp).mp hends
    obtain ⟨front, back, hi⟩ := List.append_of_mem hx
    obtain ⟨content, parent⟩ := above
    cases content with
    | buffer items =>
      obtain rfl := eq_nil_of_holdsEndTag hs hp hi htag
      rw [hi, Tree.insertItem, if_pos rfl, List.dropLast_concat, List.getLast?_concat]
      exact .beforeEndTag htag
    | _ => exact absurd hends Bool.false_ne_true

/-- What stands behind others is taken out from behind them. -/
theorem erase_middle {front : List Handle} (hh : h ∉ front) (back : List Handle) :
    (front ++ h :: back).erase h = front ++ back := by
  rw [List.erase_append_right _ hh, List.erase_cons_head]

/-- An item that is added and taken away again. -/
theorem erase_insertItem (keepLast : Bool) {items : List Handle} (hh : h ∉ items) :
    (Tree.insertItem keepLast items h).erase h = items := by
  cases keepLast with
  | false => rw [Tree.insertItem, if_neg (by decide), erase_middle hh, List.append_nil]
  | true =>
    have hfront : h ∉ items.dropLast := fun hmem => hh ((List.dropLast_sublist items).mem hmem)
    rw [Tree.insertItem, if_pos rfl, erase_middle hfront]
    cases hl : items.getLast? with
    | none => simp [List.getLast?_eq_none_iff.mp hl]
    | some last =>
      obtain ⟨front, rfl⟩ := List.getLast?_eq_some_iff.mp hl
      simp

/-- **Detaching undoes attaching.** -/
theorem detach_attached {P : Kind → Prop} (hs : t.Sound P) (ha : t.Attachable p h above node) :
    Tree.detach h (t.attached p h above) = .ok () t := by
  have hfind := ha.find?_attached
  have hp := (hfind p).trans ((if_neg ha.ne).trans (if_pos rfl))
  have hn := (hfind h).trans (if_pos rfl)
  -- The node is listed nowhere before, so taking it away takes away what was added.
  have hnew : h ∉ above.content.children := fun hmem =>
    hs.forest.not_lists_detached ha.find_node ha.detached
      ⟨above, ha.find_parent, List.mem_append_right _ hmem⟩
  have hlisted := Content.children_mapChildren
    (f := fun children => Tree.insertItem (t.endsInTag above.content) children h) ha.not_data
    (Content.ne_name_of_accepts ha.accepts)
  have hmem := (Tree.Sound.insertItem_perm (t.endsInTag above.content) above.content.children h)
  rw [Tree.detach_ok hn rfl hp (hlisted ▸ hmem.mem_iff.mpr List.mem_cons_self)]
  have hbooks : t.SameBooks (t.attached p h above) := Tree.SameBooks.relink t p _ h _
  have hback : Tree.relink (t.attached p h above) p
      (·.mapChildren fun children => children.erase h) h none = t := by
    refine (hbooks.trans (Tree.SameBooks.relink _ p _ h none)).eq_of_sameNodes hs.accounts
      fun x => ?_
    rw [Tree.find?_relink hp hn ha.ne, hfind]
    by_cases hxh : x = h
    · rw [if_pos hxh, hxh, ha.find_node, ← ha.detached]
    · by_cases hxp : x = p
      · rw [if_neg hxh, if_pos hxp, hxp, ha.find_parent, Content.mapChildren_mapChildren,
          Content.mapChildren_eq_self (erase_insertItem _ hnew)]
      · rw [if_neg hxh, if_neg hxp, if_neg hxh, if_neg hxp]
  rw [hback]

/-- **What attaching does in a tree that requests make.** -/
theorem attaching (hs : t.Sound IsChecked) (p h : Handle) : Attaching t p h where
  succeeds_iff := attach_eq_ok_iff.trans (attachable_iff hs)
  attached t' hok := by
    obtain ⟨above, node, ha⟩ := attach_eq_ok_iff.mp ⟨t', hok⟩
    rw [Tree.attach_ok ha] at hok
    obtain ⟨-, rfl⟩ := EStateM.Result.ok.inj hok
    have hmoved := Tree.moved_relink
      (f := fun children => Tree.insertItem (t.endsInTag above.content) children h) ha.find_parent
      ha.find_node ha.ne ha.not_data (Content.ne_name_of_accepts ha.accepts) (some p)
    exact ⟨_, _, appended_insertItem hs ha.find_parent h, hmoved⟩
  descriptor hbuffer := by
    obtain ⟨above, hp, hopcode⟩ := Tree.opcode_eq_ok_iff.mp hbuffer
    obtain ⟨items, hc⟩ := Content.opcode_eq_buffer_iff.mp hopcode
    rw [Tree.attach, bind_ok (Tree.ask_ok (Tree.content_eq hp)), hc]
  not_buffer hno := by
    rcases Tree.appendDescriptor_cases p h t with herr | ⟨above, node, items, ha, hc, -⟩
    · exact herr
    · exact absurd (by rw [Tree.opcode_eq ha.find_parent, hc]; rfl) hno
  undone t' hok := by
    obtain ⟨above, node, ha⟩ := attach_eq_ok_iff.mp ⟨t', hok⟩
    rw [Tree.attach_ok ha] at hok
    obtain ⟨-, rfl⟩ := EStateM.Result.ok.inj hok
    exact detach_attached hs ha

/-! ### Detaching -/

/-- **What detaching does**, asked of a node. -/
structure Detaching (t : Tree) (h : Handle) : Prop where
  /-- It succeeds exactly if the node is there, has an owner and is no fixed argument. -/
  succeeds_iff : (∃ t', Tree.detach h t = .ok () t') ↔
    (∃ p, t.parent h = .ok (some p)) ∧ ¬t.IsArgument h
  /-- The owner has one child less, and the other children keep their order. -/
  removed : ∀ t', Tree.detach h t = .ok () t' → ∃ p front back, t.parent h = .ok (some p) ∧
    t.Moved p (front ++ h :: back) (front ++ back) h none t'

/-- **What detaching does in a tree that requests make.** -/
theorem detaching (hf : View.Forest t.find?) (h : Handle) : Detaching t h where
  succeeds_iff := by
    constructor
    · rintro ⟨t', hok⟩
      rcases Tree.detach_cases h t with ⟨e, herr⟩ | ⟨p, above, node, hn, hpar, hp, hmem, -⟩
      · exact nomatch hok.symm.trans herr
      · exact ⟨⟨p, hpar ▸ Tree.parent_eq hn⟩, (Tree.mem_children_iff hf hn hpar hp).mp hmem⟩
    · rintro ⟨⟨p, hpar⟩, hnot⟩
      obtain ⟨node, hn, hpar⟩ := Tree.parent_eq_ok_iff.mp hpar
      obtain ⟨above, hp, -⟩ := (hf.parent_iff_lists h p).mp ⟨node, hn, hpar⟩
      exact ⟨_, Tree.detach_ok hn hpar hp ((Tree.mem_children_iff hf hn hpar hp).mpr hnot)⟩
  removed t' hok := by
    rcases Tree.detach_cases h t with ⟨e, herr⟩ | ⟨p, above, node, hn, hpar, hp, hmem, hok'⟩
    · exact nomatch hok.symm.trans herr
    · obtain ⟨-, rfl⟩ := EStateM.Result.ok.inj (hok.symm.trans hok')
      have hne : p ≠ h := hf.owner_ne ⟨node, hn, hpar⟩
      have hmoved := Tree.moved_relink (f := fun children => children.erase h) hp hn hne
        (Content.ne_data_of_mem_children hmem) (Content.ne_name_of_mem_children hmem) none
      -- The node is listed once, so it is the one that is taken away.
      obtain ⟨front, back, hc⟩ := List.append_of_mem hmem
      have hnd := (List.nodup_append.mp (hf.nodup_links p above hp)).2.1
      rw [hc] at hmoved hnd
      have hfront : h ∉ front := fun hin =>
        (List.nodup_append.mp hnd).2.2 h hin h List.mem_cons_self rfl
      rw [erase_middle hfront] at hmoved
      exact ⟨p, front, back, hpar ▸ Tree.parent_eq hn, hmoved⟩

/-! ### Trees that requests make -/

/-- **How nodes are attached and detached** in a tree. -/
structure AttachesDetaches (t : Tree) : Prop where
  /-- A node is attached where there is a place for it. -/
  attaching : ∀ p h, Attaching t p h
  /-- A child is detached. -/
  detaching : ∀ h, Detaching t h

/-- **In every tree that requests make**, whatever the handles. -/
theorem attachesDetaches_run (attempts : List (Attempt Request)) (hfit : (run attempts).Fits) :
    AttachesDetaches (run attempts) := by
  have hs := sound_run_isChecked attempts hfit
  exact ⟨attaching hs, detaching hs.forest⟩

/-- A list of resources below a device, a descriptor that is not attached yet and a stale handle. -/
theorem attachesDetaches_run_resources :
    AttachesDetaches (run (amply [.declareRegion .device "COM1" none,
      .declareTemplate "_CRS" (some ⟨1, 0⟩),
      .addInterrupt ⟨.consumer, .level, .low, .exclusive⟩ [41] none,
      .edit (.makeData .resourceData [0x79, 0]), .edit (.delete ⟨7, 0⟩)])) :=
  attachesDetaches_run _ (by decide)

end Assembly

end AcpiTables
