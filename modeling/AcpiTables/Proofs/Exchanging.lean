import AcpiTables.Proofs.Attaching
import AcpiTables.Proofs.Tree.Stands

/-!
# Exchanging nodes

A detached node takes the place of another if it fits there
(`AcpiTables.Assembly.FitsPlace`). Three nodes change: the parent has the one node where it had the
other, and the two nodes have other owners (`AcpiTables.Tree.Exchanged`). What is below the node
that left is still below it.

The exchange can be turned round, and then the tree is exactly what it was. The request has to
succeed for this, so its conditions have to hold the other way. The node that left fits its place,
since it stood there and every link of a sound tree fits its place
(`AcpiTables.Content.Shaped.admits`). And it is not above its former parent, because nothing on the
way up from the parent has changed (`AcpiTables.View.above_of_exchanged`).

| result | theorem |
|---|---|
| which nodes are exchanged | `AcpiTables.Assembly.exchanging` |
| exchanging them back undoes it | `AcpiTables.Tree.Replaceable.replace_back` |
| both in the trees that requests make | `AcpiTables.Assembly.exchanges_run` |
-/

namespace AcpiTables

/-! ### Places -/

namespace Content

variable {c : Content} {h : Handle}

/-- **The same object with a node in the place of another**, among the fixed arguments or among the
children. -/
inductive InPlace (old new : Handle) (c c' : Content) : Prop
  /-- Among the fixed arguments. -/
  | argument (place : Nat) : c'.opcode = c.opcode → c.fixedArguments[place]? = some old →
    c'.fixedArguments = c.fixedArguments.set place new → c'.children = c.children →
    InPlace old new c c'
  /-- Among the children. -/
  | child (place : Nat) : c'.opcode = c.opcode → c.children[place]? = some old →
    c'.children = c.children.set place new → c'.fixedArguments = c.fixedArguments →
    InPlace old new c c'

theorem inPlace_put {old : Handle} {position : Position} (hs : c.StandsAt old position)
    (new : Handle) : InPlace old new c (c.put new position) := by
  cases hs with
  | label => exact .argument 0 rfl rfl rfl rfl
  | value hl => exact .argument 1 rfl rfl rfl rfl
  | @item front back hh => exact .child front.length rfl (by simp [children]) rfl rfl
  | regionLabel => exact .argument 0 rfl rfl rfl rfl
  | @member kind label front back hl hh =>
    exact .child front.length rfl (by simp [children]) rfl rfl

theorem standsAt_label (hh : c.fixedArguments[0]? = some h) : c.StandsAt h .label := by
  cases c with
  | data type bytes => exact nomatch hh
  | name label value =>
    obtain rfl := Option.some.inj hh
    exact .label
  | buffer items => exact nomatch hh
  | region kind label members =>
    obtain rfl := Option.some.inj hh
    exact .regionLabel

theorem standsAt_value (hnd : c.links.Nodup) (hh : c.fixedArguments[1]? = some h) :
    c.StandsAt h .value := by
  cases c with
  | data type bytes => exact nomatch hh
  | name label value =>
    obtain rfl := Option.some.inj hh
    exact .value fun he => by simp [he] at hnd
  | buffer items => exact nomatch hh
  | region kind label members => exact nomatch hh

theorem exists_standsAt_child (hnd : c.links.Nodup) (hh : h ∈ c.children) :
    ∃ place, c.StandsAt h (.child place) := by
  obtain ⟨front, back, hc⟩ := List.append_of_mem hh
  have hfront : (front ++ h :: back).Nodup → h ∉ front := fun hnd hin =>
    (List.nodup_append.mp hnd).2.2 h hin h List.mem_cons_self rfl
  cases c with
  | data type bytes => exact nomatch hh
  | name label value => exact nomatch hh
  | buffer items =>
    obtain rfl : items = front ++ h :: back := hc
    exact ⟨_, .item (hfront hnd)⟩
  | region kind label members =>
    obtain rfl : members = front ++ h :: back := hc
    obtain ⟨hlabel, hnd⟩ := List.nodup_cons.mp hnd
    exact ⟨_, .member (fun he => hlabel (by rw [he]; exact hh)) (hfront hnd)⟩

end Content

/-! ### The way up -/

namespace View

variable {v v' : View} {p old new x q : Handle} {above oldNode newNode : Node} {content : Content}

section Exchange

variable (hf : v.Forest) (hp : v p = some above) (hold : v.Parent old p)
  (hv : ∀ x, v' x = if x = new then some { newNode with parent := some p }
    else if x = old then some { oldNode with parent := none }
    else if x = p then some { above with content } else v x)

include hp hv

/-- The owners after an exchange. -/
theorem parent_of_exchanged (hx : v'.Parent x q) :
    (x = new ∧ q = p) ∨ (x ≠ new ∧ x ≠ old ∧ v.Parent x q) := by
  obtain ⟨node, hn, hq⟩ := hx
  rw [hv] at hn
  split at hn
  · next he =>
    rw [← Option.some.inj hn] at hq
    exact Or.inl ⟨he, (Option.some.inj hq).symm⟩
  · next hne =>
    split at hn
    · rw [← Option.some.inj hn] at hq
      exact nomatch hq
    · next hno =>
      refine Or.inr ⟨hne, hno, ?_⟩
      split at hn
      · next he =>
        rw [← Option.some.inj hn] at hq
        exact he ▸ ⟨above, hp, hq⟩
      · exact ⟨node, hn, hq⟩

theorem parent_exchanged (hx : v.Parent x q) (hne : x ≠ new) (hno : x ≠ old) :
    v'.Parent x q := by
  obtain ⟨node, hn, hq⟩ := hx
  by_cases he : x = p
  · subst he
    obtain rfl := Option.some.inj (hp.symm.trans hn)
    exact ⟨_, (hv x).trans ((if_neg hne).trans ((if_neg hno).trans (if_pos rfl))), hq⟩
  · exact ⟨node, (hv x).trans ((if_neg hne).trans ((if_neg hno).trans ((if_neg he).trans hn))), hq⟩

/-- **What is above the parent after an exchange was above it before**, unless the new node was. -/
theorem above_of_exchanged (hcycle : ¬v.Above new p) (hx : v'.Above x p) : v.Above x p := by
  induction hx with
  | refl => exact Relation.ReflTransGen.refl
  | tail _ hyz ih =>
    rcases parent_of_exchanged hp hv hyz with ⟨rfl, -⟩ | ⟨-, -, hyz⟩
    · exact absurd ih hcycle
    · exact Relation.ReflTransGen.tail ih hyz

include hf hold

/-- **The subtree of the node that left** is what it was. -/
theorem above_old_iff (hd : ∀ q, ¬v.Parent new q) : v'.Above old x ↔ v.Above old x := by
  have hcycle := hf.not_above_owner hold
  constructor
  · intro hx
    induction hx using Relation.ReflTransGen.head_induction_on with
    | refl => exact Relation.ReflTransGen.refl
    | head hxy _ ih =>
      rcases parent_of_exchanged hp hv hxy with ⟨-, rfl⟩ | ⟨-, -, hxy⟩
      · exact absurd ih hcycle
      · exact Relation.ReflTransGen.head hxy ih
  · intro hx
    induction hx using Relation.ReflTransGen.head_induction_on with
    | refl => exact Relation.ReflTransGen.refl
    | @head x y hxy hup ih =>
      refine Relation.ReflTransGen.head (parent_exchanged hp hv hxy ?_ ?_) ih
      · rintro rfl
        exact hd y hxy
      · rintro rfl
        exact hcycle (hxy.unique hold ▸ hup)

end Exchange

end View

/-! ### What changes -/

namespace Tree

variable {t t' : Tree} {p old new : Handle} {position : Position} {above oldNode newNode : Node}
  {P : Kind → Prop}

/-- **A node took the place of another.** Nothing else happened. -/
structure Exchanged (t : Tree) (p old new : Handle) (t' : Tree) : Prop where
  /-- The parent is the same object but for the one place. -/
  place : ∃ c c', t.content p = .ok c ∧ t'.content p = .ok c' ∧ Content.InPlace old new c c'
  /-- It has the same owner. -/
  owner : t'.parent p = t.parent p
  /-- The new node has the parent for its owner. -/
  new_owner : t'.parent new = .ok (some p)
  /-- It is otherwise the same. -/
  new_content : t'.content new = t.content new
  /-- The old node is detached. -/
  old_owner : t'.parent old = .ok none
  /-- It is otherwise the same. -/
  old_content : t'.content old = t.content old
  /-- All other nodes are the same. -/
  kept : ∀ x, x ≠ p → x ≠ old → x ≠ new → t'.find? x = t.find? x
  /-- The old node is above what it was above of. -/
  below : ∀ x, View.Above t'.find? old x ↔ View.Above t.find? old x
  /-- All nodes below it are the same. -/
  below_kept : ∀ x, View.Above t.find? old x → x ≠ old → t'.find? x = t.find? x
  /-- It has the same bytes. -/
  encode : t'.encode old = t.encode old
  /-- The books are the same. -/
  books : t.SameBooks t'

/-- **When a node can take the place of another.** -/
structure Replaceable (t : Tree) (p old new : Handle) (position : Position)
    (above oldNode newNode : Node) : Prop where
  /-- The parent is there. -/
  find_parent : t.find? p = some above
  /-- The node to be replaced is there. -/
  find_old : t.find? old = some oldNode
  /-- The node to be put there is there. -/
  find_new : t.find? new = some newNode
  /-- The one is owned by the parent. -/
  owned : oldNode.parent = some p
  /-- The other is detached. -/
  detached : newNode.parent = none
  /-- It is not above the parent. -/
  not_above : t.isAbove new p = false
  /-- The parent has the one at a place. -/
  stands : above.content.position? old = some position
  /-- The other fits that place. -/
  admits : above.content.Admits oldNode.content newNode.content position

theorem replace_eq_ok_iff : (∃ t', replace old new t = .ok () t') ↔
    ∃ p position above oldNode newNode, t.Replaceable p old new position above oldNode newNode := by
  constructor
  · rintro ⟨t', hok⟩
    rcases replace_cases old new t with
      ⟨e, herr⟩ | ⟨p, position, above, oldNode, newNode, hp, ho, hn, hpar, hd, hna, hpos, hadm, -⟩
    · exact nomatch hok.symm.trans herr
    · exact ⟨p, position, above, oldNode, newNode, hp, ho, hn, hpar, hd, hna, hpos, hadm⟩
  · rintro ⟨p, position, above, oldNode, newNode, hp, ho, hn, hpar, hd, hna, hpos, hadm⟩
    exact ⟨_, replace_ok hp ho hn hpar hd hna hpos hadm⟩

namespace Replaceable

theorem replace_eq (hr : t.Replaceable p old new position above oldNode newNode) :
    replace old new t = .ok () (t.exchanged p old new position) :=
  replace_ok hr.find_parent hr.find_old hr.find_new hr.owned hr.detached hr.not_above hr.stands
    hr.admits

theorem sound (hr : t.Replaceable p old new position above oldNode newNode) (hs : t.Sound P) :
    (t.exchanged p old new position).Sound P :=
  hs.exchanged hr.find_parent hr.find_old hr.find_new hr.owned hr.detached hr.not_above
    hr.stands hr.admits

theorem ne (hr : t.Replaceable p old new position above oldNode newNode) (ho : t.Ordered) :
    p ≠ old ∧ p ≠ new ∧ new ≠ old :=
  Sound.exchanged_ne ho hr.find_old hr.find_new hr.owned hr.detached hr.not_above

/-- What handles denote once the nodes are exchanged. -/
theorem find?_exchanged (hr : t.Replaceable p old new position above oldNode newNode)
    (ho : t.Ordered) (x : Handle) : (t.exchanged p old new position).find? x =
      if x = new then some { newNode with parent := some p }
      else if x = old then some { oldNode with parent := none }
      else if x = p then some { above with content := above.content.put new position }
      else t.find? x := by
  obtain ⟨hpo, hpn, hno⟩ := hr.ne ho
  exact Tree.find?_exchanged hr.find_parent hr.find_old hr.find_new hpo hpn hno position x

theorem parent (hr : t.Replaceable p old new position above oldNode newNode) :
    View.Parent t.find? old p := ⟨oldNode, hr.find_old, hr.owned⟩

/-- **The exchange can be turned round.** -/
theorem back (hr : t.Replaceable p old new position above oldNode newNode) (hs : t.Sound P) :
    (t.exchanged p old new position).Replaceable p new old position
      { above with content := above.content.put new position } { newNode with parent := some p }
      { oldNode with parent := none } := by
  obtain ⟨hpo, hpn, hno⟩ := hr.ne hs.toOrdered
  have hfind := hr.find?_exchanged hs.toOrdered
  refine ⟨?_, ?_, ?_, rfl, rfl, ?_, ?_, ?_⟩
  · exact (hfind p).trans ((if_neg hpn).trans ((if_neg hpo).trans (if_pos rfl)))
  · exact (hfind new).trans (if_pos rfl)
  · exact (hfind old).trans ((if_neg hno.symm).trans (if_pos rfl))
  · have hcycle : ¬View.Above t.find? new p := fun hup =>
      Bool.eq_false_iff.mp hr.not_above (hs.isAbove_iff.mpr hup)
    refine Bool.eq_false_iff.mpr fun hup => hs.forest.not_above_owner hr.parent ?_
    exact View.above_of_exchanged hr.find_parent hfind hcycle
      ((hr.sound hs).isAbove_iff.mp hup)
  · exact Content.position?_put hr.stands fun hmem =>
      hs.forest.not_lists_detached hr.find_new hr.detached ⟨above, hr.find_parent, hmem⟩
  · exact (hs.shaped p above hr.find_parent).admits hr.stands (kind?_eq hr.find_old) hr.admits new

/-- **Exchanging back leaves the tree as it was.** -/
theorem replace_back (hr : t.Replaceable p old new position above oldNode newNode)
    (hs : t.Sound P) : replace new old (t.exchanged p old new position) = .ok () t := by
  have hr' := hr.back hs
  have hback : Tree.exchanged (t.exchanged p old new position) p new old position = t := by
    refine ((SameBooks.exchanged t p old new position).trans
      (SameBooks.exchanged _ p new old position)).eq_of_sameNodes hs.accounts fun x => ?_
    rw [hr'.find?_exchanged (hr.sound hs).toOrdered, hr.find?_exchanged hs.toOrdered,
      Content.put_put hr.stands]
    by_cases hxo : x = old
    · rw [if_pos hxo, hxo, hr.find_old, ← hr.owned]
    · by_cases hxn : x = new
      · rw [if_neg hxo, if_pos hxn, hxn, hr.find_new, ← hr.detached]
      · by_cases hxp : x = p
        · rw [if_neg hxo, if_neg hxn, if_pos hxp, hxp, hr.find_parent]
        · rw [if_neg hxo, if_neg hxn, if_neg hxp, if_neg hxn, if_neg hxo, if_neg hxp]
  rw [hr'.replace_eq, hback]

/-- What has changed once the nodes are exchanged. -/
theorem exchanged (hr : t.Replaceable p old new position above oldNode newNode)
    (hs : t.Sound P) : t.Exchanged p old new (t.exchanged p old new position) := by
  have hr' := hr.back hs
  have hfind := hr.find?_exchanged hs.toOrdered
  have hdetached : ∀ q, ¬View.Parent t.find? new q := fun q =>
    View.not_parent_of_detached hr.find_new hr.detached
  have hkept : ∀ x, x ≠ p → x ≠ old → x ≠ new →
      (t.exchanged p old new position).find? x = t.find? x := fun x hxp hxo hxn => by
    rw [hfind, if_neg hxn, if_neg hxo, if_neg hxp]
  -- Neither the parent nor the new node is below the old one.
  have hbelow : ∀ x, View.Above t.find? old x → x ≠ p ∧ x ≠ new := fun x hup => by
    constructor
    · rintro rfl
      exact hs.forest.not_above_owner hr.parent hup
    · rintro rfl
      exact (hr.ne hs.toOrdered).2.2.symm
        (View.eq_of_above_detached hr.find_new hr.detached hup)
  have hsame : ∀ x, View.Above t.find? old x → x ≠ old →
      (t.exchanged p old new position).find? x = t.find? x := fun x hup hxo =>
    hkept x (hbelow x hup).1 hxo (hbelow x hup).2
  refine ⟨⟨_, _, content_eq hr.find_parent, content_eq hr'.find_parent,
    Content.inPlace_put (Content.position?_eq_some_iff.mp hr.stands) new⟩, ?_,
    parent_eq hr'.find_old, ?_, parent_eq hr'.find_new, ?_, hkept, fun x => ?_, hsame, ?_,
    SameBooks.exchanged t p old new position⟩
  · rw [parent_eq hr'.find_parent, parent_eq hr.find_parent]
  · rw [content_eq hr'.find_old, content_eq hr.find_new]
  · rw [content_eq hr'.find_new, content_eq hr.find_old]
  · exact View.above_old_iff hs.forest hr.find_parent hr.parent hfind hdetached
  · rw [encode_eq hr'.find_new, encode_eq hr.find_old]
    refine congrArg Except.ok (hs.bytesOf_congr (hr.sound hs).toOrdered hr.find_old
      fun x hup node hx => ?_)
    by_cases hxo : x = old
    · subst hxo
      obtain rfl := Option.some.inj (hr.find_old.symm.trans hx)
      exact ⟨_, hr'.find_new, rfl⟩
    · exact ⟨node, (hsame x hup hxo).trans hx, rfl⟩

end Replaceable

end Tree

namespace Assembly

variable {t : Tree} {p old new : Handle} {above oldNode newNode : Node}

/-! ### What fits -/

/-- **A node fits the place of another** in a parent. -/
inductive FitsPlace (t : Tree) (p old new : Handle) : Prop
  /-- A label takes the place of the label. -/
  | label : t.argument p 0 = .ok (some old) → t.dataType new = .ok (some .nameString) →
    FitsPlace t p old new
  /-- A buffer or an encoded object takes the place of the value of a `Name`. -/
  | value : t.argument p 1 = .ok (some old) →
    t.opcode new = .ok (some .buffer) ∨ t.dataType new = .ok (some .raw) → FitsPlace t p old new
  /-- An object takes the place of a member of a region. -/
  | member {kind : Region} {members : List Handle} {opcode : Opcode} :
    t.opcode p = .ok (some (.region kind)) → t.children p = .ok members → old ∈ members →
    t.opcode new = .ok (some opcode) → FitsPlace t p old new
  /-- A descriptor takes the place of an item of a buffer, and is an End Tag if that one is. -/
  | item {items : List Handle} : t.opcode p = .ok (some .buffer) → t.children p = .ok items →
    old ∈ items → t.dataType new = .ok (some .resourceData) →
    (HoldsEndTag t new ↔ HoldsEndTag t old) → FitsPlace t p old new

/-- End Tags are told by their bytes. -/
theorem isEndTag_eq_iff (hs : t.Sound IsChecked) (ho : t.find? old = some oldNode)
    (hn : t.find? new = some newNode) : oldNode.content.isEndTag = newNode.content.isEndTag ↔
      (HoldsEndTag t new ↔ HoldsEndTag t old) := by
  rw [← isEndTag_iff hs, ← isEndTag_iff hs, Tree.isEndTag_eq ho, Tree.isEndTag_eq hn,
    ← Bool.eq_iff_iff, eq_comm]

/-- What fits a place is what its object admits there. -/
theorem fitsPlace_iff (hs : t.Sound IsChecked) (hp : t.find? p = some above)
    (ho : t.find? old = some oldNode) (hn : t.find? new = some newNode) :
    FitsPlace t p old new ↔ ∃ position, above.content.position? old = some position ∧
      above.content.Admits oldNode.content newNode.content position := by
  have hnd := hs.forest.nodup_links p above hp
  simp only [Content.position?_eq_some_iff]
  constructor
  · rintro (⟨hold, hnew⟩ | ⟨hold, hnew⟩ | ⟨hregion, hmembers, hold, hnew⟩ |
      ⟨hbuffer, hitems, hold, hnew, htag⟩)
    · rw [Tree.argument_eq hp, Except.ok.injEq] at hold
      rw [Tree.dataType_eq hn, Except.ok.injEq] at hnew
      exact ⟨.label, Content.standsAt_label hold, Content.isLabel_kind_iff.mpr hnew⟩
    · rw [Tree.argument_eq hp, Except.ok.injEq] at hold
      rw [Tree.opcode_eq hn, Tree.dataType_eq hn, Except.ok.injEq, Except.ok.injEq] at hnew
      exact ⟨.value, Content.standsAt_value hnd hold, Content.isValue_kind_iff.mpr hnew⟩
    · rw [Tree.opcode_eq hp, Except.ok.injEq] at hregion
      rw [Tree.children_eq hp, Except.ok.injEq] at hmembers
      rw [Tree.opcode_eq hn, Except.ok.injEq] at hnew
      obtain ⟨place, hstands⟩ := Content.exists_standsAt_child hnd (hmembers ▸ hold)
      obtain ⟨label, members, hc⟩ := Content.opcode_eq_region_iff.mp hregion
      refine ⟨.child place, hstands, ?_, fun hbuffer => ?_⟩
      · rw [hc, Content.accepts_region, Content.isObject_kind_iff]
        exact ⟨_, hnew⟩
      · exact nomatch hregion.symm.trans hbuffer
    · rw [Tree.opcode_eq hp, Except.ok.injEq] at hbuffer
      rw [Tree.children_eq hp, Except.ok.injEq] at hitems
      rw [Tree.dataType_eq hn, Except.ok.injEq] at hnew
      obtain ⟨place, hstands⟩ := Content.exists_standsAt_child hnd (hitems ▸ hold)
      obtain ⟨items, hc⟩ := Content.opcode_eq_buffer_iff.mp hbuffer
      refine ⟨.child place, hstands, ?_, fun _ => (isEndTag_eq_iff hs ho hn).mpr htag⟩
      rw [hc, Content.accepts_buffer, Content.isDescriptor_kind_iff]
      exact hnew
  · rintro ⟨position, hstands, hadm⟩
    have hlabel : newNode.content.kind.isLabel = true → t.dataType new = .ok (some .nameString) :=
      fun hk => by rw [Tree.dataType_eq hn, Content.isLabel_kind_iff.mp hk]
    obtain ⟨content, parent⟩ := above
    cases hstands with
    | label => exact .label (Tree.argument_eq hp 0) (hlabel hadm)
    | value hl =>
      refine .value (Tree.argument_eq hp 1) ?_
      rw [Tree.opcode_eq hn, Tree.dataType_eq hn, Except.ok.injEq, Except.ok.injEq]
      exact Content.isValue_kind_iff.mp hadm
    | item hh =>
      refine .item (Tree.opcode_eq hp) (Tree.children_eq hp) (by simp [Content.children]) ?_
        ((isEndTag_eq_iff hs ho hn).mp (hadm.2 rfl))
      have hdata := hadm.1
      rw [Content.accepts_buffer, Content.isDescriptor_kind_iff] at hdata
      rw [Tree.dataType_eq hn, hdata]
    | regionLabel => exact .label (Tree.argument_eq hp 0) (hlabel hadm)
    | member hl hh =>
      have hobject := hadm.1
      rw [Content.accepts_region, Content.isObject_kind_iff] at hobject
      obtain ⟨opcode, hobject⟩ := hobject
      exact .member (Tree.opcode_eq hp) (Tree.children_eq hp) (by simp [Content.children])
        (by rw [Tree.opcode_eq hn, hobject])

/-! ### Exchanging -/

/-- **What exchanging does**, asked of two nodes. -/
structure Exchanging (t : Tree) (old new : Handle) : Prop where
  /-- It succeeds exactly if the one node has an owner, and the other is there, is detached, is not
  above that owner and fits the place. -/
  succeeds_iff : (∃ t', Tree.replace old new t = .ok () t') ↔ ∃ p, t.parent old = .ok (some p) ∧
    t.parent new = .ok none ∧ ¬View.Above t.find? new p ∧ FitsPlace t p old new
  /-- The other node is at the place of the one. -/
  exchanged : ∀ t', Tree.replace old new t = .ok () t' →
    ∃ p, t.parent old = .ok (some p) ∧ t.Exchanged p old new t'
  /-- Exchanging them back leaves the tree as it was. -/
  undone : ∀ t', Tree.replace old new t = .ok () t' → Tree.replace new old t' = .ok () t

theorem replaceable_iff (hs : t.Sound IsChecked) :
    (∃ p position above oldNode newNode,
      t.Replaceable p old new position above oldNode newNode) ↔ ∃ p, t.parent old = .ok (some p) ∧
        t.parent new = .ok none ∧ ¬View.Above t.find? new p ∧ FitsPlace t p old new := by
  constructor
  · rintro ⟨p, position, above, oldNode, newNode, hr⟩
    refine ⟨p, hr.owned ▸ Tree.parent_eq hr.find_old, hr.detached ▸ Tree.parent_eq hr.find_new,
      fun hup => Bool.eq_false_iff.mp hr.not_above (hs.isAbove_iff.mpr hup), ?_⟩
    exact (fitsPlace_iff hs hr.find_parent hr.find_old hr.find_new).mpr
      ⟨position, hr.stands, hr.admits⟩
  · rintro ⟨p, hold, hnew, hna, hfits⟩
    obtain ⟨oldNode, ho, hpar⟩ := Tree.parent_eq_ok_iff.mp hold
    obtain ⟨newNode, hn, hd⟩ := Tree.parent_eq_ok_iff.mp hnew
    obtain ⟨above, hp, -⟩ := (hs.forest.parent_iff_lists old p).mp ⟨oldNode, ho, hpar⟩
    obtain ⟨position, hpos, hadm⟩ := (fitsPlace_iff hs hp ho hn).mp hfits
    exact ⟨p, position, above, oldNode, newNode, hp, ho, hn, hpar, hd,
      Bool.eq_false_iff.mpr fun hup => hna (hs.isAbove_iff.mp hup), hpos, hadm⟩

/-- **What exchanging does in a tree that requests make.** -/
theorem exchanging (hs : t.Sound IsChecked) (old new : Handle) : Exchanging t old new where
  succeeds_iff := Tree.replace_eq_ok_iff.trans (replaceable_iff hs)
  exchanged t' hok := by
    obtain ⟨p, position, above, oldNode, newNode, hr⟩ := Tree.replace_eq_ok_iff.mp ⟨t', hok⟩
    obtain ⟨-, rfl⟩ := EStateM.Result.ok.inj (hr.replace_eq.symm.trans hok)
    exact ⟨p, hr.owned ▸ Tree.parent_eq hr.find_old, hr.exchanged hs⟩
  undone t' hok := by
    obtain ⟨p, position, above, oldNode, newNode, hr⟩ := Tree.replace_eq_ok_iff.mp ⟨t', hok⟩
    obtain ⟨-, rfl⟩ := EStateM.Result.ok.inj (hr.replace_eq.symm.trans hok)
    exact hr.replace_back hs

/-- **In every tree that requests make**, whatever the handles. -/
theorem exchanges_run (attempts : List (Attempt Request)) (hfit : (run attempts).Fits)
    (old new : Handle) : Exchanging (run attempts) old new :=
  exchanging (sound_run_isChecked attempts hfit) old new

/-- Two End Tags, one of which closes a list of resources. -/
theorem exchanges_run_endTag :
    Exchanging (run (amply [.declareTemplate "_CRS" none,
      .addResourceInterrupt ⟨3, 0⟩ ⟨.consumer, .edge, .high, .exclusive⟩ [5],
      .edit (.makeData .resourceData [0x79, 0x42])])) ⟨1, 0⟩ ⟨5, 0⟩ :=
  exchanges_run _ (by decide) ⟨1, 0⟩ ⟨5, 0⟩

end Assembly

end AcpiTables
