import AcpiTables.Tree.Edit

/-!
# What a node is and stays

The links of a node change while it lives, but not its **kind**: an object keeps its
opcode, and data keeps its bytes. Whether a node fits a place depends on kinds alone, so
what fits once fits as long as the node is there. `AcpiTables.Content.Shaped` says that
every link fits its place, given the kinds of nodes.

Where a link stands is said by `AcpiTables.Content.StandsAt`, with one rule for each place, so that
no proof opens the search for it.

Only the End Tag asks for more. It depends on the order of the items of a buffer: none
that is an End Tag has an item behind it.
-/

namespace AcpiTables

/-- What does not change about a node. -/
inductive Kind where
  /-- Bytes of a given type. -/
  | data (type : DataType) (bytes : Bytes)
  /-- An object of a given opcode. -/
  | object (opcode : Opcode)
deriving DecidableEq, Repr

namespace Kind

/-- Whether a node can be a label. -/
def isLabel : Kind → Bool
  | data .nameString _ => true
  | _ => false

/-- Whether a node can be the value of a `Name`. -/
def isValue : Kind → Bool
  | data .raw _ => true
  | object .buffer => true
  | _ => false

/-- Whether a node can be a member of a region. -/
def isObject : Kind → Bool
  | object _ => true
  | _ => false

/-- Whether a node can be an item of a buffer. -/
def isDescriptor : Kind → Bool
  | data .resourceData _ => true
  | _ => false

/-- Whether a node is an End Tag. -/
def isEndTag : Kind → Bool
  | data .resourceData bytes => Resource.startsWithEndTag bytes
  | _ => false

/-! ### Kinds that fit a place -/

theorem isLabel_iff {k : Kind} : k.isLabel = true ↔ ∃ bytes, k = data .nameString bytes := by
  rcases k with ⟨_ | _ | _, bytes⟩ | opcode <;> simp [isLabel]

theorem isValue_iff {k : Kind} :
    k.isValue = true ↔ k = object .buffer ∨ ∃ bytes, k = data .raw bytes := by
  rcases k with ⟨_ | _ | _, bytes⟩ | _ | _ | _ <;> simp [isValue]

theorem isObject_iff {k : Kind} : k.isObject = true ↔ ∃ opcode, k = object opcode := by
  rcases k with ⟨type, bytes⟩ | opcode <;> simp [isObject]

theorem isDescriptor_iff {k : Kind} :
    k.isDescriptor = true ↔ ∃ bytes, k = data .resourceData bytes := by
  rcases k with ⟨_ | _ | _, bytes⟩ | opcode <;> simp [isDescriptor]

end Kind

namespace Content

/-- The kind of a node with a given content. -/
def kind : Content → Kind
  | data type bytes => .data type bytes
  | name _ _ => .object .name
  | buffer _ => .object .buffer
  | region kind _ _ => .object (.region kind)

/-! ### Opcodes -/

theorem opcode_eq_name_iff {c : Content} :
    c.opcode = some .name ↔ ∃ label value, c = name label value := by
  cases c <;> simp [opcode]

theorem opcode_eq_buffer_iff {c : Content} :
    c.opcode = some .buffer ↔ ∃ items, c = buffer items := by
  cases c <;> simp [opcode]

theorem opcode_eq_region_iff {c : Content} {k : Region} :
    c.opcode = some (.region k) ↔ ∃ label members, c = region k label members := by
  cases c <;> simp [opcode]

/-! ### Kinds by opcode and type -/

theorem isLabel_kind_iff {c : Content} :
    c.kind.isLabel = true ↔ c.dataType = some .nameString := by
  rcases c with ⟨_ | _ | _, bytes⟩ | _ | _ | _ <;> simp [kind, Kind.isLabel, dataType]

theorem isValue_kind_iff {c : Content} :
    c.kind.isValue = true ↔ c.opcode = some .buffer ∨ c.dataType = some .raw := by
  rcases c with ⟨_ | _ | _, bytes⟩ | _ | _ | _ <;> simp [kind, Kind.isValue, dataType, opcode]

theorem isObject_kind_iff {c : Content} :
    c.kind.isObject = true ↔ ∃ opcode, c.opcode = some opcode := by
  cases c <;> simp [kind, Kind.isObject, opcode]

theorem isDescriptor_kind_iff {c : Content} :
    c.kind.isDescriptor = true ↔ c.dataType = some .resourceData := by
  rcases c with ⟨_ | _ | _, bytes⟩ | _ | _ | _ <;> simp [kind, Kind.isDescriptor, dataType]

/-! ### Links -/

@[simp] theorem links_data (type : DataType) (bytes : Bytes) : (data type bytes).links = [] := rfl

@[simp] theorem links_name (label value : Handle) : (name label value).links = [label, value] := rfl

@[simp] theorem links_buffer (items : List Handle) : (buffer items).links = items := rfl

@[simp] theorem links_region (kind : Region) (label : Handle) (members : List Handle) :
    (region kind label members).links = label :: members := rfl

/-- Data has no children. -/
theorem ne_data_of_mem_children {c : Content} {h : Handle} (hh : h ∈ c.children)
    (type : DataType) (bytes : Bytes) : c ≠ data type bytes := by
  rintro rfl
  exact nomatch hh

@[simp] theorem kind_mapChildren (f : List Handle → List Handle) (c : Content) :
    (c.mapChildren f).kind = c.kind := by
  cases c <;> rfl

@[simp] theorem kind_put (new : Handle) (position : Position) (c : Content) :
    (c.put new position).kind = c.kind := by
  cases position <;> cases c <;> rfl

@[simp] theorem opcode_mapChildren (f : List Handle → List Handle) (c : Content) :
    (c.mapChildren f).opcode = c.opcode := by
  cases c <;> rfl

@[simp] theorem fixedArguments_mapChildren (f : List Handle → List Handle) (c : Content) :
    (c.mapChildren f).fixedArguments = c.fixedArguments := by
  cases c <;> rfl

theorem children_mapChildren {f : List Handle → List Handle} {c : Content}
    (hc : ∀ type bytes, c ≠ data type bytes) (hn : ∀ label value, c ≠ name label value) :
    (c.mapChildren f).children = f c.children := by
  cases c with
  | data type bytes => exact absurd rfl (hc type bytes)
  | name label value => exact absurd rfl (hn label value)
  | buffer items => rfl
  | region kind label members => rfl

/-- A `Name` has no children. -/
theorem ne_name_of_mem_children {c : Content} {h : Handle} (hh : h ∈ c.children)
    (label value : Handle) : c ≠ name label value := by
  rintro rfl
  exact nomatch hh

/-- An added child is one more link. -/
theorem links_mapChildren_perm {f : List Handle → List Handle} {c : Content} {h : Handle}
    (hc : ∀ type bytes, c ≠ data type bytes) (hn : ∀ label value, c ≠ name label value)
    (hf : (f c.children).Perm (h :: c.children)) : (c.mapChildren f).links.Perm (h :: c.links) := by
  cases c with
  | data type bytes => exact absurd rfl (hc type bytes)
  | name label value => exact absurd rfl (hn label value)
  | buffer items => exact hf
  | region kind label members => exact (hf.cons label).trans (List.Perm.swap h label members)

/-- A child that is taken away is one link less. -/
theorem links_perm_erase {c : Content} {h : Handle} (hh : h ∈ c.children) :
    c.links.Perm (h :: (c.mapChildren fun children => children.erase h).links) := by
  cases c with
  | data type bytes => exact nomatch hh
  | name label value => exact nomatch hh
  | buffer items => exact List.perm_cons_erase hh
  | region kind label members =>
    exact ((List.perm_cons_erase hh).cons label).trans (List.Perm.swap h label _)

/-! ### Changes that are taken back -/

theorem mapChildren_mapChildren (f g : List Handle → List Handle) (c : Content) :
    (c.mapChildren f).mapChildren g = c.mapChildren fun children => g (f children) := by
  cases c <;> rfl

/-- What becomes of the children that are there is all that matters. -/
theorem mapChildren_congr {f g : List Handle → List Handle} {c : Content}
    (hfg : f c.children = g c.children) : c.mapChildren f = c.mapChildren g := by
  cases c with
  | data type bytes => rfl
  | name label value => rfl
  | buffer items => exact congrArg buffer hfg
  | region kind label members => exact congrArg (region kind label) hfg

theorem mapChildren_eq_self {f : List Handle → List Handle} {c : Content}
    (hf : f c.children = c.children) : c.mapChildren f = c := by
  refine (mapChildren_congr (g := fun children => children) hf).trans ?_
  cases c <;> rfl

/-! ### Places -/

/-- **Where a node stands in an object**, one rule for each place. A node that is listed twice
stands at the first place. -/
inductive StandsAt (h : Handle) : Position → Content → Prop
  /-- As the label of a `Name`. -/
  | label {value : Handle} : StandsAt h .label (name h value)
  /-- As the value of a `Name`. -/
  | value {label : Handle} : label ≠ h → StandsAt h .value (name label h)
  /-- Among the items of a buffer. -/
  | item {front back : List Handle} : h ∉ front →
    StandsAt h (.child front.length) (buffer (front ++ h :: back))
  /-- As the label of a region. -/
  | regionLabel {kind : Region} {members : List Handle} :
    StandsAt h .label (region kind h members)
  /-- Among the members of a region. -/
  | member {kind : Region} {label : Handle} {front back : List Handle} : label ≠ h → h ∉ front →
    StandsAt h (.child front.length) (region kind label (front ++ h :: back))

theorem idxOf?_middle {h : Handle} {front : List Handle} (hh : h ∉ front) (back : List Handle) :
    (front ++ h :: back).idxOf? h = some front.length := by
  refine List.idxOf?_eq_some_iff.mpr ⟨by simp, by simp, fun j hj he => hh ?_⟩
  rw [List.getElem_append_left hj] at he
  exact he ▸ List.getElem_mem hj

theorem exists_middle_of_idxOf? {h : Handle} {items : List Handle} {i : Nat}
    (hi : items.idxOf? h = some i) :
    ∃ front back, items = front ++ h :: back ∧ h ∉ front ∧ i = front.length := by
  obtain ⟨hlt, hget, hfirst⟩ := List.idxOf?_eq_some_iff.mp hi
  have hh : items[i] = h := by simpa using hget
  refine ⟨items.take i, items.drop (i + 1), ?_, fun hmem => ?_, ?_⟩
  · rw [← hh, ← List.drop_eq_getElem_cons hlt, List.take_append_drop]
  · obtain ⟨j, hj, hget⟩ := List.getElem_of_mem hmem
    rw [List.length_take] at hj
    rw [List.getElem_take] at hget
    exact hfirst j (by omega) hget
  · rw [List.length_take]
    omega

/-- **The search for a node finds where it stands.** -/
theorem position?_eq_some_iff {c : Content} {h : Handle} {position : Position} :
    c.position? h = some position ↔ c.StandsAt h position := by
  constructor
  · intro hp
    cases c with
    | data type bytes => exact nomatch hp
    | name label value =>
      by_cases hl : label = h
      · subst hl
        simp only [position?, if_true, Option.some.injEq] at hp
        exact hp ▸ .label
      · by_cases hv : value = h
        · subst hv
          simp only [position?, if_neg hl, if_true, Option.some.injEq] at hp
          exact hp ▸ .value hl
        · simp [position?, hl, hv] at hp
    | buffer items =>
      obtain ⟨i, hi, rfl⟩ := Option.map_eq_some_iff.mp hp
      obtain ⟨front, back, rfl, hh, rfl⟩ := exists_middle_of_idxOf? hi
      exact .item hh
    | region kind label members =>
      by_cases hl : label = h
      · subst hl
        simp only [position?, if_true, Option.some.injEq] at hp
        exact hp ▸ .regionLabel
      · rw [position?, if_neg hl] at hp
        obtain ⟨i, hi, rfl⟩ := Option.map_eq_some_iff.mp hp
        obtain ⟨front, back, rfl, hh, rfl⟩ := exists_middle_of_idxOf? hi
        exact .member hl hh
  · intro hs
    cases hs with
    | label => simp [position?]
    | value hl => simp [position?, hl]
    | item hh => simp [position?, idxOf?_middle hh]
    | regionLabel => simp [position?]
    | member hl hh => simp [position?, hl, idxOf?_middle hh]

theorem set_middle (front back : List Handle) (old new : Handle) :
    (front ++ old :: back).set front.length new = front ++ new :: back := by
  simp

/-- Putting a node at the place of another changes one link. -/
theorem links_put {c : Content} {old : Handle} {position : Position}
    (hp : c.position? old = some position) (new : Handle) :
    ∃ front back, c.links = front ++ old :: back ∧
      (c.put new position).links = front ++ new :: back := by
  cases position?_eq_some_iff.mp hp with
  | label => exact ⟨[], _, rfl, rfl⟩
  | value hl => exact ⟨[_], [], rfl, rfl⟩
  | @item front back hh => exact ⟨front, back, rfl, set_middle front back old new⟩
  | regionLabel => exact ⟨[], _, rfl, rfl⟩
  | @member kind label front back hl hh =>
    exact ⟨label :: front, back, rfl, congrArg (label :: ·) (set_middle front back old new)⟩

/-- A node in the place of another stands where that one stood, if it was nowhere before. -/
theorem position?_put {c : Content} {old new : Handle} {position : Position}
    (hp : c.position? old = some position) (hnew : new ∉ c.links) :
    (c.put new position).position? new = some position := by
  rw [position?_eq_some_iff] at hp ⊢
  cases hp with
  | label => exact .label
  | value hl => exact .value fun he => hnew (by simp [he])
  | @item front back hh =>
    rw [put, mapChildren, set_middle]
    exact .item fun hmem => hnew (by simp [hmem])
  | regionLabel => exact .regionLabel
  | @member kind label front back hl hh =>
    rw [put, mapChildren, set_middle]
    exact .member (fun he => hnew (by simp [he])) fun hmem => hnew (by simp [hmem])

/-- Putting a node back where it stood. -/
theorem put_put {c : Content} {old : Handle} {position : Position}
    (hp : c.position? old = some position) (new : Handle) :
    (c.put new position).put old position = c := by
  cases position?_eq_some_iff.mp hp with
  | label => rfl
  | value hl => rfl
  | @item front back hh => simp [put, mapChildren]
  | regionLabel => rfl
  | @member kind label front back hl hh => simp [put, mapChildren]

/-! ### Shapes -/

/-- **Every link fits its place**, given the kinds of nodes, and no item of a buffer but
the last is an End Tag. -/
def Shaped (kind? : Handle → Option Kind) : Content → Prop
  | data _ _ => True
  | name label value => (kind? label).any Kind.isLabel ∧ (kind? value).any Kind.isValue
  | buffer items =>
    (∀ h ∈ items, (kind? h).any Kind.isDescriptor) ∧
      items.Pairwise fun h _ => (kind? h).any Kind.isEndTag = false
  | region _ label members =>
    (kind? label).any Kind.isLabel ∧ ∀ h ∈ members, (kind? h).any Kind.isObject

/-- A shape depends on the kinds of the links only. -/
theorem Shaped.congr {kind? kind?' : Handle → Option Kind} {c : Content}
    (hk : ∀ h ∈ c.links, kind?' h = kind? h) (hs : c.Shaped kind?) : c.Shaped kind?' := by
  cases c with
  | data type bytes => trivial
  | name label value =>
    simp only [links_name, List.mem_cons, List.not_mem_nil, or_false, forall_eq_or_imp,
      forall_eq] at hk
    rw [Shaped, hk.1, hk.2]
    exact hs
  | buffer items =>
    refine ⟨fun h hh => by rw [hk h hh]; exact hs.1 h hh, ?_⟩
    exact hs.2.imp_of_mem fun {h _} hh _ he => by rw [hk h hh]; exact he
  | region kind label members =>
    rw [links_region] at hk
    refine ⟨by rw [hk label List.mem_cons_self]; exact hs.1, fun h hh => ?_⟩
    rw [hk h (List.mem_cons_of_mem _ hh)]
    exact hs.2 h hh

/-! ### Shapes of changed objects -/

variable {kind? : Handle → Option Kind} {c : Content} {h : Handle} {k : Kind}

/-- What has no links has a shape. -/
theorem shaped_of_links_nil (hc : c.links = []) : c.Shaped kind? := by
  cases c with
  | data type bytes => trivial
  | name label value => exact nomatch hc
  | buffer items =>
    rw [links_buffer] at hc
    subst hc
    exact ⟨nofun, .nil⟩
  | region kind label members => exact nomatch hc

theorem accepts_buffer (items : List Handle) (c : Content) :
    (buffer items).accepts c = c.kind.isDescriptor := by
  cases c with
  | data type bytes => cases type <;> rfl
  | name label value => rfl
  | buffer items => rfl
  | region kind label members => rfl

theorem accepts_region (kind : Region) (label : Handle) (members : List Handle) (c : Content) :
    (region kind label members).accepts c = c.kind.isObject := by
  cases c <;> rfl

/-- Data accepts nothing. -/
theorem ne_data_of_accepts {above c : Content} (hacc : above.accepts c = true) (type : DataType)
    (bytes : Bytes) : above ≠ data type bytes := by
  rintro rfl
  exact nomatch hacc

/-- A `Name` accepts nothing. -/
theorem ne_name_of_accepts {above c : Content} (hacc : above.accepts c = true)
    (label value : Handle) : above ≠ name label value := by
  rintro rfl
  exact nomatch hacc

theorem isEndTag_kind (c : Content) : c.kind.isEndTag = c.isEndTag := by
  cases c with
  | data type bytes => cases type <;> rfl
  | name label value => rfl
  | buffer items => rfl
  | region kind label members => rfl

/-- Only a descriptor is an End Tag. -/
theorem exists_descriptor_of_isEndTag {c : Content} (hc : c.isEndTag = true) :
    ∃ bytes, c = .data .resourceData bytes ∧ Resource.startsWithEndTag bytes = true := by
  cases c with
  | data type bytes =>
    cases type with
    | resourceData => exact ⟨bytes, rfl, hc⟩
    | _ => simp [isEndTag] at hc
  | _ => simp [isEndTag] at hc

/-- A list without an End Tag but for its last place is one without an End Tag, or with one at
its last place. -/
theorem pairwise_front {p : Handle → Bool} {items : List Handle}
    (hp : items.Pairwise fun h _ => p h = false) (hlast : items.getLast?.any p = false) :
    ∀ h ∈ items, p h = false := by
  intro h hh
  cases hl : items.getLast? with
  | none =>
    rw [List.getLast?_eq_none_iff.mp hl] at hh
    exact nomatch hh
  | some last =>
    obtain ⟨front, rfl⟩ := List.getLast?_eq_some_iff.mp hl
    rw [hl] at hlast
    rw [List.pairwise_append] at hp
    rcases List.mem_append.mp hh with hf | hf
    · exact hp.2.2 h hf last List.mem_cons_self
    · rw [List.mem_singleton.mp hf]
      exact hlast

/-- **A descriptor in front of the End Tag**, or behind all items if there is none. -/
theorem Shaped.insertItem {items : List Handle} (hs : (buffer items).Shaped kind?)
    (hk : kind? h = some k) (hd : k.isDescriptor = true)
    (hone : items.getLast?.any (fun x => (kind? x).any Kind.isEndTag) = true →
      k.isEndTag = false) :
    (buffer (Tree.insertItem (items.getLast?.any fun x => (kind? x).any Kind.isEndTag)
      items h)).Shaped kind? := by
  obtain ⟨hitems, hpair⟩ := hs
  have hh : (kind? h).any Kind.isDescriptor = true := by rw [hk]; exact hd
  cases hlast : items.getLast?.any fun x => (kind? x).any Kind.isEndTag with
  | false =>
    rw [Tree.insertItem, if_neg (by decide)]
    refine ⟨fun x hx => ?_, List.pairwise_append.mpr ⟨hpair, List.pairwise_singleton _ _, ?_⟩⟩
    · rcases List.mem_append.mp hx with hx | hx
      · exact hitems x hx
      · rw [List.mem_singleton.mp hx]
        exact hh
    · intro x hx _ _
      exact pairwise_front hpair hlast x hx
  | true =>
    have hnot : (kind? h).any Kind.isEndTag = false := by rw [hk]; exact hone hlast
    rw [Tree.insertItem, if_pos rfl]
    cases hl : items.getLast? with
    | none =>
      rw [hl] at hlast
      exact nomatch hlast
    | some last =>
      obtain ⟨front, rfl⟩ := List.getLast?_eq_some_iff.mp hl
      -- The End Tag stays behind the new item, which is none itself.
      rw [List.pairwise_append] at hpair
      rw [List.dropLast_concat, Option.toList_some]
      refine ⟨fun x hx => ?_, ?_⟩
      · simp only [List.mem_append, List.mem_cons, List.not_mem_nil, or_false] at hx
        rcases hx with hx | rfl | rfl
        · exact hitems x (List.mem_append_left _ hx)
        · exact hh
        · exact hitems x (by simp)
      · rw [List.pairwise_append, List.pairwise_cons]
        refine ⟨hpair.1, ⟨fun _ _ => hnot, List.pairwise_singleton _ _⟩, fun x hx _ _ => ?_⟩
        exact hpair.2.2 x hx last List.mem_cons_self

/-- A shape survives the loss of a child. -/
theorem Shaped.erase (hs : c.Shaped kind?) (h : Handle) :
    (c.mapChildren fun children => children.erase h).Shaped kind? := by
  cases c with
  | data type bytes => trivial
  | name label value => exact hs
  | buffer items =>
    exact ⟨fun x hx => hs.1 x (List.mem_of_mem_erase hx), hs.2.sublist List.erase_sublist⟩
  | region kind label members => exact ⟨hs.1, fun x hx => hs.2 x (List.mem_of_mem_erase hx)⟩

/-- What a place in an object asks of a node that comes to stand there for another. -/
def Admits (above old new : Content) : Position → Prop
  | .label => new.kind.isLabel
  | .value => new.kind.isValue
  | .child _ =>
    above.accepts new ∧ (above.opcode = some .buffer → old.isEndTag = new.isEndTag)

/-- Items of which one is exchanged for another that is an End Tag if and only if it was. -/
theorem Shaped.exchange {front back : List Handle} {old new : Handle}
    (hs : (buffer (front ++ old :: back)).Shaped kind?)
    (hd : (kind? new).any Kind.isDescriptor = true)
    (hsame : (kind? old).any Kind.isEndTag = (kind? new).any Kind.isEndTag) :
    (buffer (front ++ new :: back)).Shaped kind? := by
  obtain ⟨hitems, hpair⟩ := hs
  refine ⟨fun x hx => ?_, ?_⟩
  · simp only [List.mem_append, List.mem_cons] at hx hitems
    rcases hx with hx | rfl | hx
    · exact hitems x (Or.inl hx)
    · exact hd
    · exact hitems x (Or.inr (Or.inr hx))
  · -- What is in front of the place sees an item there as before, and so does what is behind.
    simp only [List.pairwise_append, List.pairwise_cons, List.mem_cons] at hpair ⊢
    refine ⟨hpair.1, ⟨fun x hx => ?_, hpair.2.1.2⟩, fun x hx y _ => hpair.2.2 x hx old (Or.inl rfl)⟩
    rw [← hsame]
    exact hpair.2.1.1 x hx

/-- **A node that fits the place of another keeps the shape.** -/
theorem Shaped.put {above oldContent newContent : Content} {old new : Handle}
    {position : Position} (hs : above.Shaped kind?)
    (hpos : above.position? old = some position) (hold : kind? old = some oldContent.kind)
    (hnew : kind? new = some newContent.kind)
    (hadm : above.Admits oldContent newContent position) :
    (above.put new position).Shaped kind? := by
  have hany : ∀ {p : Kind → Bool}, p newContent.kind = true → (kind? new).any p = true :=
    fun hp => by rwa [hnew]
  cases position?_eq_some_iff.mp hpos with
  | label => exact ⟨hany hadm, hs.2⟩
  | value hl => exact ⟨hs.1, hany hadm⟩
  | @item front back hh =>
    obtain ⟨hacc, htag⟩ := hadm
    rw [Content.put, mapChildren, set_middle]
    refine hs.exchange (hany ((accepts_buffer _ newContent).symm.trans hacc)) ?_
    rw [hold, hnew, Option.any_some, Option.any_some, isEndTag_kind, isEndTag_kind]
    exact htag rfl
  | regionLabel => exact ⟨hany hadm, hs.2⟩
  | @member kind label front back hl hh =>
    refine ⟨hs.1, fun x hx => ?_⟩
    rcases List.mem_or_eq_of_mem_set hx with hx | rfl
    · exact hs.2 x hx
    · exact hany ((accepts_region _ _ _ newContent).symm.trans hadm.1)

/-- **What stood at a place can come back to it.** It fits because it stood there, and asks of what
took its place no more than that asked of it. -/
theorem Shaped.admits {above oldContent newContent : Content} {old : Handle} {position : Position}
    (hs : above.Shaped kind?) (hpos : above.position? old = some position)
    (hold : kind? old = some oldContent.kind)
    (hadm : above.Admits oldContent newContent position) (new : Handle) :
    (above.put new position).Admits newContent oldContent position := by
  have hany : ∀ {p : Kind → Bool}, (kind? old).any p = true → p oldContent.kind = true :=
    fun hp => by rwa [hold] at hp
  cases position?_eq_some_iff.mp hpos with
  | label => exact hany hs.1
  | value hl => exact hany hs.2
  | @item front back hh =>
    have hd := hany (hs.1 old (by simp))
    exact ⟨(accepts_buffer _ _).trans hd, fun _ => (hadm.2 rfl).symm⟩
  | regionLabel => exact hany hs.1
  | @member kind label front back hl hh =>
    have ho := hany (hs.2 old (by simp))
    exact ⟨(accepts_region kind label _ _).trans ho, nofun⟩

end Content

end AcpiTables
