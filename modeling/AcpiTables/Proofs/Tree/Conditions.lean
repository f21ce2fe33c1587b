import AcpiTables.Proofs.Request
import AcpiTables.Proofs.Tree.Content

/-!
# What the conditions of an edit ask

Each request to a tree first asks whether it is allowed. The conditions are written as
questions that fail with the first reason; here they are turned into statements about what
handles denote, one for each question that gates an edit:

| question | theorem |
|---|---|
| can a node become a child | `AcpiTables.Tree.requireAttachable_eq_ok_iff` |
| can a descriptor be added to a buffer | `AcpiTables.Tree.requireAppendable_eq_ok_iff` |
| which parent has the node as a child | `AcpiTables.Tree.childOwner_eq_ok_iff` |
| can a node stand at a place | `AcpiTables.Tree.requirePosition_eq_ok_iff` |
| can a node take the place of another | `AcpiTables.Tree.requireReplacement_eq_ok_iff` |
-/

namespace AcpiTables

namespace Tree

variable {t : Tree} {h p old new : Handle}

/-! ### Reading a node -/

theorem node_eq_ok_iff {node : Node} : t.node h = .ok node ↔ t.find? h = some node := by
  unfold Tree.node
  cases t.find? h <;> simp

theorem content_eq_ok_iff {c : Content} :
    t.content h = .ok c ↔ ∃ node, t.find? h = some node ∧ node.content = c := by
  simp only [content, map_eq_ok, node_eq_ok_iff]

theorem parent_eq_ok_iff {parent : Option Handle} :
    t.parent h = .ok parent ↔ ∃ node, t.find? h = some node ∧ node.parent = parent := by
  simp only [Tree.parent, map_eq_ok, node_eq_ok_iff]

/-- A question about the content of a node. -/
theorem map_content_eq_ok_iff {α : Type} {f : Content → α} {a : α} :
    f <$> t.content h = .ok a ↔ ∃ node, t.find? h = some node ∧ f node.content = a := by
  rw [map_eq_ok]
  constructor
  · rintro ⟨_, hc, rfl⟩
    obtain ⟨node, hn, rfl⟩ := content_eq_ok_iff.mp hc
    exact ⟨node, hn, rfl⟩
  · rintro ⟨node, hn, rfl⟩
    exact ⟨_, content_eq_ok_iff.mpr ⟨node, hn, rfl⟩, rfl⟩

theorem children_eq_ok_iff {children : List Handle} :
    t.children h = .ok children ↔
      ∃ node, t.find? h = some node ∧ node.content.children = children :=
  map_content_eq_ok_iff

theorem opcode_eq_ok_iff {opcode : Option Opcode} :
    t.opcode h = .ok opcode ↔ ∃ node, t.find? h = some node ∧ node.content.opcode = opcode :=
  map_content_eq_ok_iff

theorem dataType_eq_ok_iff {type : Option DataType} :
    t.dataType h = .ok type ↔ ∃ node, t.find? h = some node ∧ node.content.dataType = type :=
  map_content_eq_ok_iff

theorem argument_eq_ok_iff {place : Nat} {argument : Option Handle} :
    t.argument h place = .ok argument ↔
      ∃ node, t.find? h = some node ∧ node.content.fixedArguments[place]? = argument :=
  map_content_eq_ok_iff

/-! ### Reading a node that is there -/

section Found

variable {node : Node} (hn : t.find? h = some node)

include hn

theorem content_eq : t.content h = .ok node.content := content_eq_ok_iff.mpr ⟨node, hn, rfl⟩

theorem parent_eq : t.parent h = .ok node.parent := parent_eq_ok_iff.mpr ⟨node, hn, rfl⟩

theorem children_eq : t.children h = .ok node.content.children :=
  children_eq_ok_iff.mpr ⟨node, hn, rfl⟩

theorem opcode_eq : t.opcode h = .ok node.content.opcode := opcode_eq_ok_iff.mpr ⟨node, hn, rfl⟩

theorem dataType_eq : t.dataType h = .ok node.content.dataType :=
  dataType_eq_ok_iff.mpr ⟨node, hn, rfl⟩

theorem argument_eq (place : Nat) :
    t.argument h place = .ok node.content.fixedArguments[place]? :=
  argument_eq_ok_iff.mpr ⟨node, hn, rfl⟩

end Found

/-! ### Owners -/

theorem owner_eq_ok_iff :
    t.owner h = .ok p ↔ ∃ node, t.find? h = some node ∧ node.parent = some p := by
  simp only [owner, bind_eq_ok, parent_eq_ok_iff]
  constructor
  · rintro ⟨_, ⟨node, hn, rfl⟩, hp⟩
    split at hp
    · next q hq => exact ⟨node, hn, by rw [hq, pure_eq_ok.mp hp]⟩
    · exact nomatch hp
  · rintro ⟨node, hn, hp⟩
    exact ⟨_, ⟨node, hn, rfl⟩, by rw [hp]; rfl⟩

theorem requireDetached_eq_ok_iff {u : Unit} :
    t.requireDetached h = .ok u ↔ ∃ node, t.find? h = some node ∧ node.parent = none := by
  simp only [requireDetached, bind_eq_ok, parent_eq_ok_iff]
  constructor
  · rintro ⟨_, ⟨node, hn, rfl⟩, hp⟩
    split at hp
    · next hq => exact ⟨node, hn, hq⟩
    · exact nomatch hp
  · rintro ⟨node, hn, hp⟩
    exact ⟨_, ⟨node, hn, rfl⟩, by rw [hp]; rfl⟩

/-- The End Tag that closes a buffer is its last item, if that is one. -/
theorem endTag?_eq_ok_iff {endTag : Option Handle} :
    t.endTag? h = .ok endTag ↔ ∃ node items, t.find? h = some node ∧
      node.content = .buffer items ∧ items.getLast?.filter t.isEndTag = endTag := by
  simp only [endTag?, bind_eq_ok, content_eq_ok_iff]
  constructor
  · rintro ⟨_, ⟨node, hn, rfl⟩, hc⟩
    split at hc
    · next items hi => exact ⟨node, items, hn, hi, pure_eq_ok.mp hc⟩
    · exact nomatch hc
  · rintro ⟨node, items, hn, hi, rfl⟩
    exact ⟨_, ⟨node, hn, rfl⟩, by rw [hi]; rfl⟩

/-! ### Data -/

theorem requireData_of_checkDescriptor {bytes : Bytes} {header : Resource.Header}
    (hd : Resource.checkDescriptor bytes = .ok header) :
    requireData .resourceData bytes = .ok () := by
  rw [requireData, hd]
  rfl

/-! ### Fitting a place -/

theorem requireValue_eq_ok_iff {u : Unit} :
    t.requireValue h = .ok u ↔ ∃ node, t.find? h = some node ∧ node.content.kind.isValue := by
  simp only [requireValue, bind_eq_ok, content_eq_ok_iff]
  constructor
  · rintro ⟨_, ⟨node, hn, rfl⟩, hc⟩
    refine ⟨node, hn, ?_⟩
    split at hc
    · next hi => rw [hi]; rfl
    · next hi => rw [hi]; rfl
    · cases hc
  · rintro ⟨node, hn, hk⟩
    refine ⟨_, ⟨node, hn, rfl⟩, ?_⟩
    cases hc : node.content with
    | data type bytes => cases type <;> simp_all [Content.kind, Kind.isValue, pure, Except.pure]
    | buffer items => rfl
    | name label value => simp [hc, Content.kind, Kind.isValue] at hk
    | region kind label members => simp [hc, Content.kind, Kind.isValue] at hk

theorem requireLabel_eq_ok_iff {u : Unit} :
    t.requireLabel h = .ok u ↔ ∃ node, t.find? h = some node ∧ node.content.kind.isLabel := by
  simp only [requireLabel, bind_eq_ok, content_eq_ok_iff]
  constructor
  · rintro ⟨_, ⟨node, hn, rfl⟩, hc⟩
    refine ⟨node, hn, ?_⟩
    split at hc
    · next hi => rw [hi]; rfl
    · cases hc
  · rintro ⟨node, hn, hk⟩
    refine ⟨_, ⟨node, hn, rfl⟩, ?_⟩
    cases hc : node.content with
    | data type bytes => cases type <;> simp_all [Content.kind, Kind.isLabel, pure, Except.pure]
    | buffer items => simp [hc, Content.kind, Kind.isLabel] at hk
    | name label value => simp [hc, Content.kind, Kind.isLabel] at hk
    | region kind label members => simp [hc, Content.kind, Kind.isLabel] at hk

theorem requireKinds_eq_ok_iff {u : Unit} :
    t.requireKinds p h = .ok u ↔ ∃ above node, t.find? p = some above ∧
      t.find? h = some node ∧ above.content.accepts node.content := by
  simp only [requireKinds, bind_eq_ok, content_eq_ok_iff]
  constructor
  · rintro ⟨_, ⟨node, hn, rfl⟩, _, ⟨above, hp, rfl⟩, hc⟩
    refine ⟨above, node, hp, hn, ?_⟩
    by_cases ha : above.content.accepts node.content
    · exact ha
    · rw [if_neg ha] at hc
      cases ho : above.content.opcode <;> simp [ho] at hc
  · rintro ⟨above, node, hp, hn, ha⟩
    exact ⟨_, ⟨node, hn, rfl⟩, _, ⟨above, hp, rfl⟩, by rw [if_pos ha]; rfl⟩

/-- **When a node can become a child**: it is detached, the parent is not below it, and the
parent holds such nodes. -/
theorem requireAttachable_eq_ok_iff {u : Unit} :
    t.requireAttachable p h = .ok u ↔ ∃ above node, t.find? p = some above ∧
      t.find? h = some node ∧ node.parent = none ∧ t.isAbove h p = false ∧
        above.content.accepts node.content := by
  simp only [requireAttachable, bind_eq_ok, requireDetached_eq_ok_iff]
  constructor
  · rintro ⟨-, ⟨node, hn, hd⟩, hc⟩
    by_cases ha : t.isAbove h p
    · simp [ha, bind, Except.bind] at hc
    · rw [if_neg ha] at hc
      obtain ⟨above, node', hp, hn', hacc⟩ := requireKinds_eq_ok_iff.mp hc
      obtain rfl := Option.some.inj (hn.symm.trans hn')
      exact ⟨above, node, hp, hn, hd, Bool.eq_false_iff.mpr ha, hacc⟩
  · rintro ⟨above, node, hp, hn, hd, ha, hacc⟩
    refine ⟨(), ⟨node, hn, hd⟩, ?_⟩
    rw [if_neg (Bool.eq_false_iff.mp ha)]
    exact requireKinds_eq_ok_iff.mpr ⟨above, node, hp, hn, hacc⟩

/-! ### Children of a buffer -/

theorem isEndTag_eq {node : Node} (hn : t.find? h = some node) :
    t.isEndTag h = node.content.isEndTag := by
  rw [isEndTag, hn]

theorem hasOpcode_eq {node : Node} (hn : t.find? h = some node) (opcode : Opcode) :
    t.hasOpcode h opcode = (node.content.opcode == some opcode) := by
  rw [hasOpcode, hn]

theorem hasOpcode_iff {opcode : Opcode} : t.hasOpcode h opcode = true ↔
    ∃ node, t.find? h = some node ∧ node.content.opcode = some opcode := by
  rw [hasOpcode]
  cases t.find? h <;> simp

/-- **When a descriptor can be added to a buffer**: it can become a child, and it is no End
Tag if the last item is one. -/
theorem requireAppendable_eq_ok_iff {hasEndTag : Bool} :
    t.requireAppendable p h = .ok hasEndTag ↔
      t.requireAttachable p h = .ok () ∧ ∃ above items, t.find? p = some above ∧
        above.content = .buffer items ∧ items.getLast?.any t.isEndTag = hasEndTag ∧
        (hasEndTag = true → t.isEndTag h = false) := by
  simp only [requireAppendable, bind_eq_ok, endTag?_eq_ok_iff]
  have hsome : ∀ items : List Handle,
      (items.getLast?.filter t.isEndTag).isSome = items.getLast?.any t.isEndTag := fun items => by
    cases items.getLast? with
    | none => rfl
    | some last => cases hl : t.isEndTag last <;> simp [Option.filter, hl]
  constructor
  · rintro ⟨-, ⟨above, items, hp, hi, rfl⟩, ⟨⟩, hok, hc⟩
    refine ⟨hok, above, items, hp, hi, ?_⟩
    rw [hsome items] at hc
    by_cases hsecond : items.getLast?.any t.isEndTag && t.isEndTag h
    · rw [if_pos hsecond] at hc
      exact nomatch hc
    · rw [if_neg hsecond] at hc
      have he := pure_eq_ok.mp hc
      refine ⟨he, fun ht => ?_⟩
      rw [he, ht, Bool.true_and] at hsecond
      exact Bool.eq_false_iff.mpr hsecond
  · rintro ⟨hok, above, items, hp, hi, rfl, hsecond⟩
    refine ⟨_, ⟨above, items, hp, hi, rfl⟩, (), hok, ?_⟩
    rw [hsome items, if_neg]
    · rfl
    · intro hc
      obtain ⟨hlast, hh⟩ := Bool.and_eq_true_iff.mp hc
      rw [hsecond hlast] at hh
      exact nomatch hh

/-! ### Leaving and exchanging -/

theorem childOwner_eq_ok_iff :
    t.childOwner h = .ok p ↔ ∃ node above, t.find? h = some node ∧ node.parent = some p ∧
      t.find? p = some above ∧ h ∈ above.content.children := by
  simp only [childOwner, bind_eq_ok, owner_eq_ok_iff, children_eq_ok_iff]
  constructor
  · rintro ⟨q, ⟨node, hn, hq⟩, _, ⟨above, hp, rfl⟩, hc⟩
    by_cases hh : above.content.children.contains h
    · rw [if_pos hh] at hc
      obtain rfl := pure_eq_ok.mp hc
      exact ⟨node, above, hn, hq, hp, List.contains_iff_mem.mp hh⟩
    · rw [if_neg hh] at hc
      exact nomatch hc
  · rintro ⟨node, above, hn, hq, hp, hh⟩
    refine ⟨p, ⟨node, hn, hq⟩, _, ⟨above, hp, rfl⟩, ?_⟩
    rw [if_pos (List.contains_iff_mem.mpr hh)]
    rfl

/-- A condition on the ancestors of a place and one on the node that comes there. -/
private theorem unless_eq_ok_iff {b : Bool} {e : Error} {x : Except Error Unit} {u : Unit} :
    (if b then .error e else x) = .ok u ↔ b = false ∧ x = .ok u := by
  cases b <;> simp

theorem requirePosition_eq_ok_iff {above oldNode newNode : Node} (hp : t.find? p = some above)
    (ho : t.find? old = some oldNode) (hn : t.find? new = some newNode)
    (hd : newNode.parent = none) {position : Position} {u : Unit} :
    t.requirePosition p old position new = .ok u ↔ t.isAbove new p = false ∧
      above.content.Admits oldNode.content newNode.content position := by
  cases position with
  | label =>
    refine unless_eq_ok_iff.trans (and_congr_right fun _ => requireLabel_eq_ok_iff.trans ?_)
    simp [hn, Content.Admits]
  | value =>
    refine unless_eq_ok_iff.trans (and_congr_right fun _ => requireValue_eq_ok_iff.trans ?_)
    simp [hn, Content.Admits]
  | child place =>
    have hswap : (t.hasOpcode p .buffer && t.isEndTag old != t.isEndTag new) = false ↔
        (above.content.opcode = some .buffer →
          oldNode.content.isEndTag = newNode.content.isEndTag) := by
      rw [hasOpcode_eq hp, isEndTag_eq ho, isEndTag_eq hn]
      by_cases hb : above.content.opcode = some .buffer <;> simp [hb]
    simp only [requirePosition, bind_eq_ok, requireAttachable_eq_ok_iff]
    constructor
    · rintro ⟨-, ⟨above', node', hp', hn', -, ha, hacc⟩, hc⟩
      obtain rfl := Option.some.inj (hp.symm.trans hp')
      obtain rfl := Option.some.inj (hn.symm.trans hn')
      exact ⟨ha, hacc, hswap.mp (unless_eq_ok_iff.mp hc).1⟩
    · rintro ⟨ha, hacc, hsame⟩
      exact ⟨(), ⟨above, newNode, hp, hn, hd, ha, hacc⟩,
        unless_eq_ok_iff.mpr ⟨hswap.mpr hsame, rfl⟩⟩

/-- **When a node can take the place of another**: it is detached, the parent is not below
it, and it fits the place. -/
theorem requireReplacement_eq_ok_iff {position : Position} :
    t.requireReplacement old new = .ok (p, position) ↔ ∃ above oldNode newNode,
      t.find? p = some above ∧ t.find? old = some oldNode ∧ t.find? new = some newNode ∧
        oldNode.parent = some p ∧ newNode.parent = none ∧ t.isAbove new p = false ∧
        above.content.position? old = some position ∧
        above.content.Admits oldNode.content newNode.content position := by
  simp only [requireReplacement, bind_eq_ok, owner_eq_ok_iff, requireDetached_eq_ok_iff,
    content_eq_ok_iff]
  constructor
  · rintro ⟨q, ⟨oldNode, ho, hq⟩, -, ⟨newNode, hn, hd⟩, _, ⟨above, hp, rfl⟩, hc⟩
    split at hc
    · exact nomatch hc
    · next position' hpos =>
      obtain ⟨_, hfits, hc⟩ := bind_eq_ok.mp hc
      obtain ⟨rfl, rfl⟩ := Prod.mk.inj (pure_eq_ok.mp hc)
      obtain ⟨ha, hadmits⟩ := (requirePosition_eq_ok_iff hp ho hn hd).mp hfits
      exact ⟨above, oldNode, newNode, hp, ho, hn, hq, hd, ha, hpos, hadmits⟩
  · rintro ⟨above, oldNode, newNode, hp, ho, hn, hq, hd, ha, hpos, hadmits⟩
    refine ⟨p, ⟨oldNode, ho, hq⟩, (), ⟨newNode, hn, hd⟩, _, ⟨above, hp, rfl⟩, ?_⟩
    rw [hpos]
    exact bind_eq_ok.mpr ⟨(), (requirePosition_eq_ok_iff hp ho hn hd).mpr ⟨ha, hadmits⟩, rfl⟩

end Tree

end AcpiTables
