import AcpiTables.Proofs.Tree.Shortage

/-!
# Trees that requests can make

A tree is made from the empty one by requests: `AcpiTables.Tree.Request` has one for every
edit, with whatever handles and bytes, and `AcpiTables.Tree.run` makes them in order, those
that fail included. Every tree that is made in this way is sound
(`AcpiTables.Tree.sound_run`), as long as its slots have numbers of their own.

The proviso is about the last tree only. Slots are never given back, so all trees before it
had fewer. Therefore what a request keeps is said by one relation between the tree before
and the tree after, `AcpiTables.Tree.Leads`: there are no fewer slots, and if they still
have numbers, then a sound tree stayed sound.

| result | theorem |
|---|---|
| trees made by requests are sound | `AcpiTables.Tree.sound_run` |
| ownership is a forest in each | `AcpiTables.Tree.ownsAsForest_run` |
-/

namespace AcpiTables.Tree

variable {t t' : Tree} {P : Kind → Prop}

/-! ### The number of slots -/

/-- A tree has no fewer slots than another. -/
def Grows (t t' : Tree) : Prop := t.slots.length ≤ t'.slots.length

instance : IsPreorder Tree Grows where
  refl t := Nat.le_refl t.slots.length
  trans _ _ _ h h' := Nat.le_trans h h'

theorem Grows.fits (hg : t.Grows t') (hfit : t'.Fits) : t.Fits := Nat.le_trans hg hfit

theorem grows_update (h : Handle) (f : Node → Node) : Keeps Grows (update h f) := fun t => by
  rw [after_update]
  exact Nat.le_of_eq (length_slots_modify t h f).symm

theorem grows_setOwner (h : Handle) (parent : Option Handle) : Keeps Grows (setOwner h parent) :=
  grows_update h _

theorem grows_withLabel (t : Tree) (bytes : Bytes) (content : Handle → Content) :
    t.Grows (t.withLabel bytes content).2.2 := by
  rw [withLabel, Grows, length_slots_modify]
  exact Nat.le_trans (length_slots_le_allocate t _) (length_slots_le_allocate _ _)

/-- All slots that making a region needs are there before the label gets its owner. -/
theorem grows_makeRegion {kind : Region} {name : String} {bytes : Bytes}
    (hname : Aml.objectName name (kind == .scope) = .ok bytes) (t : Tree) :
    (t.withLabel bytes fun label => .region kind label []).2.2.Grows
      (after (makeRegion kind name) t) := by
  rw [makeRegion, after_bind_ok (makeLabel_ok hname t),
    after_bind_ok (orRelease_create_eq _ _ _), withLabel, Grows, length_slots_modify]
  exact (grows_setOwner _ _).andThen (fun _ => Keeps.pure _) _

theorem grows_makeName {name : String} {bytes : Bytes} {value : Handle} {node : Node}
    (hname : Aml.objectName name false = .ok bytes) (hv : t.find? value = some node)
    (hd : node.parent = none) (hk : node.content.kind.isValue) :
    (t.withLabel bytes fun label => .name label value).2.2.Grows
      (after (makeName name value) t) := by
  have hdetached : t.requireDetached value = .ok () :=
    requireDetached_eq_ok_iff.mpr ⟨node, hv, hd⟩
  have hvalue : t.requireValue value = .ok () := requireValue_eq_ok_iff.mpr ⟨node, hv, hk⟩
  rw [makeName, after_bind_ok (ask_ok hdetached), after_bind_ok (ask_ok hvalue),
    after_bind_ok (makeLabel_ok hname t), after_bind_ok (orRelease_create_eq _ _ _), withLabel,
    Grows, length_slots_modify]
  refine (grows_setOwner _ _).andThen (fun _ => ?_) _
  exact (grows_setOwner _ _).andThen fun _ => Keeps.pure _

theorem grows_foldr_release (t : Tree) (hs : List Handle) :
    t.Grows (hs.foldr (fun h t => t.release h) t) :=
  Nat.le_of_eq (length_slots_foldr_release t hs).symm

/-! ### What an edit keeps -/

/-- **What every request keeps**: a tree has no fewer slots than another, and if they have
numbers of their own, it is sound as the other was. -/
def Leads (P : Kind → Prop) (t t' : Tree) : Prop := t.Grows t' ∧ (t'.Fits → t.Sound P → t'.Sound P)

instance : IsPreorder Tree (Leads P) where
  refl t := ⟨Nat.le_refl t.slots.length, fun _ hs => hs⟩
  trans _ _ _ h h' :=
    ⟨Nat.le_trans h.1 h'.1, fun hfit hs => h'.2 hfit (h.2 (h'.1.fits hfit) hs)⟩

/-- Asking a question changes nothing. -/
theorem leads_ask {α : Type} (question : Tree → Except Error α) :
    Keeps (Leads P) (ask question) := fun t => by
  cases hq : question t with
  | ok a => rw [after_ok (ask_ok hq)]; exact refl t
  | error e => rw [after_error (ask_error hq)]; exact refl t

/-- What is left over of a sound tree is sound. -/
theorem Leftover.leads (hl : t.Leftover t') : Leads P t t' :=
  ⟨hl.length_slots_le, fun hfit hs => hl.sound hs hfit⟩

/-- **What leads on in ample memory** leads on in any. -/
theorem Provided.leads {α : Type} {m : Memory → TreeM α} {memory : Memory}
    (hm : Provided m memory t) (hample : Leads P t (after (m .ample) t)) :
    Leads P t (after (m memory) t) := by
  cases hm with
  | enough hrun => rwa [after, hrun]
  | short hrun hleft _ =>
    rw [after_error hrun]
    exact hleft.leads

theorem leads_makeData [Memory] {type : DataType} {bytes : Bytes}
    (hP : requireData type bytes = .ok () → P (.data type bytes)) :
    Keeps (Leads P) (makeData type bytes) := fun t => by
  refine (provided_makeData type bytes t).leads ?_
  rw [after, makeData_eq]
  cases hr : requireData type bytes with
  | error e => exact refl t
  | ok u => exact ⟨length_slots_le_allocate t _, fun hfit hs => hs.allocate rfl (hP hr) hfit⟩

section Objects

variable (hP : Kind.Criterion P)

include hP

theorem leads_makeBuffer [Memory] : Keeps (Leads P) makeBuffer := fun t => by
  refine (provided_makeBuffer t).leads ?_
  rw [after_ok (makeBuffer_eq t)]
  exact ⟨length_slots_le_allocate t _, fun hfit hs => hs.allocate rfl (hP.object .buffer) hfit⟩

theorem leads_makeRegion [Memory] (kind : Region) (name : String) :
    Keeps (Leads P) (makeRegion kind name) := fun t => by
  refine (provided_makeRegion kind name t).leads ?_
  cases hname : Aml.objectName name (kind == .scope) with
  | error e =>
    rw [after_error (@makeRegion_error .ample kind name e hname t)]
    exact refl t
  | ok bytes =>
    -- The slots are all there before the label gets its owner, so their numbers fit then too.
    have hgrows := grows_makeRegion hname t
    refine ⟨IsTrans.trans _ _ _ (grows_withLabel t _ _) hgrows, fun hfit hs => ?_⟩
    have hfit' := hgrows.fits hfit
    rw [after_ok (makeRegion_ok hs.accounts hname hfit')]
    have hl := hs.accounts.labelled bytes (fun label => .region kind label []) hfit'
    refine hs.labelled hl.accounts hl.find_label hl.find_object hl.label_ne
      (Content.links_region kind _ []) List.nodup_nil nofun (fun x => ?_) ?_
      (hP.object (.region kind)) (hP.label hname)
    · rw [hl.find?]
      simp
    · have hk := kind?_eq ((hl.find? _).trans (if_pos rfl))
      exact ⟨by rw [hk]; rfl, nofun⟩

theorem leads_makeObject [Memory] (opcode : Opcode) (name : Option String) :
    Keeps (Leads P) (makeObject opcode name) := by
  unfold makeObject
  split
  · exact leads_makeBuffer hP
  · exact leads_makeRegion hP _ _
  · exact Keeps.fail _

theorem leads_makeName [Memory] (name : String) (value : Handle) :
    Keeps (Leads P) (makeName name value) := fun t => by
  refine (provided_makeName name value t).leads ?_
  rcases makeName_cases name value t with ⟨e, herr⟩ | ⟨node, bytes, hv, hd, hk, hname⟩
  · rw [after_error herr]
    exact refl t
  · have hgrows := grows_makeName hname hv hd hk
    refine ⟨IsTrans.trans _ _ _ (grows_withLabel t _ _) hgrows, fun hfit hs => ?_⟩
    have hfit' := hgrows.fits hfit
    rw [after_ok (makeName_ok hs.accounts hname hv hd hk hfit')]
    have hl := hs.accounts.labelled bytes (fun label => .name label value) hfit'
    have hv' := hl.find?_old hv
    generalize t.withLabel bytes (fun label => .name label value) = made at hl hv'
    obtain ⟨label, object, t'⟩ := made
    have hnl : value ≠ label := fun he => by simp [he, hl.find_label] at hv
    have hno : value ≠ object := fun he => by simp [he, hl.find_object] at hv
    have hfind : ∀ x, (t'.modify value fun node =>
        { node with parent := some object }).find? x =
        if x = label then some ⟨.data .nameString bytes, some object⟩
        else if x = object then some ⟨.name label value, none⟩
        else (t.find? x).map fun node =>
          if x ∈ [value] then { node with parent := some object } else node := fun x => by
      rw [find?_modify, hv', hl.find?, Option.map_some]
      by_cases hx : x = value
      · subst hx
        simp [hnl, hno, hv]
      · simp [hx]
    refine hs.labelled (hl.accounts.modify _ _) hl.find_label hl.find_object hl.label_ne rfl
      (List.nodup_singleton value) (fun x hx => ?_) hfind ?_ (hP.object _) (hP.label hname)
    · rw [List.mem_singleton.mp hx]
      exact ⟨node, hv, hd⟩
    · have hlabel := kind?_eq ((hfind label).trans (if_pos rfl))
      have hvalue := kind?_eq ((hfind value).trans (by rw [if_neg hnl, if_neg hno, hv]; rfl))
      refine ⟨by rw [hlabel]; rfl, ?_⟩
      rw [hvalue]
      simpa using hk

end Objects

theorem leads_attach (p h : Handle) : Keeps (Leads P) (attach p h) := fun t => by
  rcases attach_cases p h t with ⟨e, herr⟩ | ⟨above, node, ha, hok⟩
  · rw [after_error herr]
    exact refl t
  · rw [after_ok hok]
    exact ⟨by simp [Grows, attached, relink], fun _ hs => hs.attached ha⟩

theorem leads_appendDescriptor (p h : Handle) :
    Keeps (Leads P) (appendDescriptor p h) := fun t => by
  rcases appendDescriptor_cases p h t with ⟨e, herr⟩ | ⟨above, node, items, ha, -, hok⟩
  · rw [after_error herr]
    exact refl t
  · rw [after_ok hok]
    exact ⟨by simp [Grows, attached, relink], fun _ hs => hs.attached ha⟩

theorem leads_detach (h : Handle) : Keeps (Leads P) (detach h) := fun t => by
  rcases detach_cases h t with ⟨e, herr⟩ | ⟨p, above, node, hn, -, hp, hh, hok⟩
  · rw [after_error herr]
    exact refl t
  · rw [after_ok hok]
    exact ⟨by simp [Grows, relink], fun _ hs => hs.detached hp hn hh⟩

theorem leads_replace (old new : Handle) : Keeps (Leads P) (replace old new) := fun t => by
  rcases replace_cases old new t with ⟨e, herr⟩ |
    ⟨p, position, above, oldNode, newNode, hp, ho, hn, hpar, hd, hna, hpos, hadm, hok⟩
  · rw [after_error herr]
    exact refl t
  · rw [after_ok hok]
    refine ⟨by simp [Grows, Tree.exchanged, relink], fun _ hs => ?_⟩
    exact hs.exchanged hp ho hn hpar hd hna hpos hadm

theorem leads_delete (h : Handle) : Keeps (Leads P) (delete h) := fun t => by
  rcases delete_cases h t with ⟨e, herr⟩ | ⟨node, hn, hd, hok⟩
  · rw [after_error herr]
    exact refl t
  · rw [after_ok hok]
    exact ⟨grows_foldr_release t _, fun _ hs => hs.released hn hd⟩

/-! ### Requests -/

/-- A request to a tree. -/
inductive Request where
  /-- To make a data node. -/
  | makeData (type : DataType) (bytes : Bytes)
  /-- To make an empty object. -/
  | makeObject (opcode : Opcode) (name : Option String)
  /-- To make a `Name`. -/
  | makeName (name : String) (value : Handle)
  /-- To attach a node under a parent. -/
  | attach (parent h : Handle)
  /-- To attach a descriptor under a buffer. -/
  | appendDescriptor (buffer h : Handle)
  /-- To detach a child. -/
  | detach (h : Handle)
  /-- To put a node in the place of another. -/
  | replace (old new : Handle)
  /-- To delete a subtree. -/
  | delete (h : Handle)
deriving DecidableEq, Repr

namespace Request

/-- The tree after a request, whether it succeeded or not. -/
def apply [Memory] (t : Tree) : Request → Tree
  | makeData type bytes => after (Tree.makeData type bytes) t
  | makeObject opcode name => after (Tree.makeObject opcode name) t
  | makeName name value => after (Tree.makeName name value) t
  | attach parent h => after (Tree.attach parent h) t
  | appendDescriptor buffer h => after (Tree.appendDescriptor buffer h) t
  | detach h => after (Tree.detach h) t
  | replace old new => after (Tree.replace old new) t
  | delete h => after (Tree.delete h) t

/-- Makes a request. The result is the handle of the node that was asked for, if one was. -/
def perform [Memory] : Request → TreeM (Option Handle)
  | makeData type bytes => some <$> Tree.makeData type bytes
  | makeObject opcode name => some <$> Tree.makeObject opcode name
  | makeName name value => some <$> Tree.makeName name value
  | attach parent h => (fun _ => none) <$> Tree.attach parent h
  | appendDescriptor buffer h => (fun _ => none) <$> Tree.appendDescriptor buffer h
  | detach h => (fun _ => none) <$> Tree.detach h
  | replace old new => (fun _ => none) <$> Tree.replace old new
  | delete h => (fun _ => none) <$> Tree.delete h

/-- The tree after a request is the one that the request leaves behind. -/
theorem apply_eq_after [Memory] (r : Request) (t : Tree) : r.apply t = after r.perform t := by
  cases r <;> exact (after_map _ _ t).symm

/-- Whether the data that a request makes is of an allowed kind. -/
def Allowed (P : Kind → Prop) : Request → Prop
  | makeData type bytes => requireData type bytes = .ok () → P (.data type bytes)
  | _ => True

theorem allowed_true (r : Request) : r.Allowed fun _ => True := by
  cases r with
  | makeData type bytes => exact fun _ => trivial
  | _ => trivial

/-- **Every request leads on**, from any tree. -/
theorem leads [Memory] (hP : Kind.Criterion P) (r : Request) (hr : r.Allowed P) (t : Tree) :
    Leads P t (r.apply t) := by
  cases r with
  | makeData type bytes => exact leads_makeData hr t
  | makeObject opcode name => exact leads_makeObject hP opcode name t
  | makeName name value => exact leads_makeName hP name value t
  | attach parent h => exact leads_attach parent h t
  | appendDescriptor buffer h => exact leads_appendDescriptor buffer h t
  | detach h => exact leads_detach h t
  | replace old new => exact leads_replace old new t
  | delete h => exact leads_delete h t

/-- **How a request ends in some memory**: as in ample memory, or for want of memory. -/
theorem provided (r : Request) (memory : Memory) (t : Tree) :
    Provided (fun memory => @Request.perform memory r) memory t := by
  cases r with
  | makeData type bytes => exact (provided_makeData type bytes t).map some
  | makeObject opcode name => exact (provided_makeObject opcode name t).map some
  | makeName name value => exact (provided_makeName name value t).map some
  | attach | appendDescriptor | detach | replace | delete => exact .enough rfl

/-- The tree after a request is the one of ample memory, or what is left over. -/
theorem apply_cases [memory : Memory] (r : Request) (t : Tree) :
    @apply memory t r = @apply .ample t r ∨ t.Leftover (@apply memory t r) := by
  rw [@apply_eq_after memory r t, @apply_eq_after .ample r t]
  cases r.provided memory t with
  | enough hrun => exact Or.inl (by rw [after, hrun, after])
  | short hrun hleft _ =>
    rw [after_error hrun]
    exact Or.inr hleft

/-- The tree after an attempt at a request. -/
def attempt (t : Tree) (a : Attempt Request) : Tree := @Request.apply a.memory t a.request

/-- An attempt leads on, whatever data it makes. -/
theorem leads_attempt (t : Tree) (a : Attempt Request) : Leads (fun _ => True) t (attempt t a) :=
  @Request.leads _ a.memory Kind.criterion_true a.request a.request.allowed_true t

end Request

/-- The tree that attempts at requests make from the empty one, those that fail included. -/
def run (attempts : List (Attempt Request)) : Tree := attempts.foldl Request.attempt empty

/-- **Every tree that requests make is sound**, whatever memory there is for them. -/
theorem sound_run (hP : Kind.Criterion P) {attempts : List (Attempt Request)}
    (hr : ∀ a ∈ attempts, a.request.Allowed P) (hfit : (run attempts).Fits) :
    (run attempts).Sound P := by
  have hleads : Leads P empty (run attempts) := related_foldl
    (fun a hmem t => @Request.leads P a.memory hP a.request (hr a hmem) t) empty
  exact hleads.2 hfit (sound_empty P)

/-! ### Ownership -/

/-- **Ownership in a tree is a forest.** -/
structure OwnsAsForest (t : Tree) : Prop where
  /-- What an object lists is there, and has the object for its parent. -/
  owned_of_listed : ∀ p above, t.find? p = some above →
    ∀ h ∈ above.content.fixedArguments ++ above.content.children,
      ∃ node, t.find? h = some node ∧ node.parent = some p
  /-- A parent is there, is an object, and lists the node once. -/
  listed_once : ∀ h node p, t.find? h = some node → node.parent = some p →
    ∃ above, t.find? p = some above ∧ above.content.opcode.isSome ∧
      (above.content.fixedArguments ++ above.content.children).count h = 1
  /-- Nothing but the parent lists a node. -/
  listed_nowhere_else : ∀ h node p, t.find? h = some node → node.parent = some p →
    ∀ q other, q ≠ p → t.find? q = some other →
      h ∉ other.content.fixedArguments ++ other.content.children
  /-- Going up from a node one comes to a detached one. -/
  exists_depth : ∀ h node, t.find? h = some node → ∃ n, View.Depth t.find? h n
  /-- No node is properly above itself. -/
  acyclic : ∀ h, ¬Relation.TransGen (View.Parent t.find?) h h

theorem ownsAsForest_of_forest (hf : View.Forest t.find?) : t.OwnsAsForest where
  owned_of_listed _ _ hp _ hh := hf.parent_of_mem hp hh
  listed_once h node p hn hpar := by
    obtain ⟨above, hp, hh⟩ := (hf.parent_iff_lists h p).mp ⟨node, hn, hpar⟩
    refine ⟨above, hp, ?_, List.count_eq_one_of_mem (hf.nodup_links p above hp) hh⟩
    cases hc : above.content with
    | data type bytes =>
      rw [hc] at hh
      exact nomatch hh
    | name label value => rfl
    | buffer items => rfl
    | region kind label members => rfl
  listed_nowhere_else h node p hn hpar q other hne hq hh := by
    obtain ⟨node', hn', hpar'⟩ := hf.parent_of_mem hq hh
    obtain rfl := Option.some.inj (hn.symm.trans hn')
    exact hne (Option.some.inj (hpar'.symm.trans hpar))
  exists_depth _ _ hn := hf.exists_depth hn
  acyclic := hf.not_transGen_self

/-- **In every tree that requests make, ownership is a forest**, whatever memory there is for
them. -/
theorem ownsAsForest_run (attempts : List (Attempt Request)) (hfit : (run attempts).Fits) :
    (run attempts).OwnsAsForest := by
  have hs := sound_run Kind.criterion_true (fun a _ => a.request.allowed_true) hfit
  exact ownsAsForest_of_forest hs.forest

/-- A scope that holds a device, an attempt to attach the scope below the device, a device for whose
label there is memory but not for itself, and a stale handle. -/
theorem ownsAsForest_run_scope :
    (run (amply [.makeObject (.region .scope) (some "_SB"), .makeObject (.region .device)
        (some "DEV"), .attach ⟨1, 0⟩ ⟨3, 0⟩, .attach ⟨3, 0⟩ ⟨1, 0⟩] ++
      ⟨.forSlots 5, .makeObject (.region .device) (some "COM1")⟩ ::
      amply [.detach ⟨3, 0⟩, .attach ⟨1, 0⟩ ⟨3, 0⟩, .delete ⟨1, 0⟩,
        .attach ⟨1, 0⟩ ⟨3, 0⟩])).OwnsAsForest :=
  ownsAsForest_run _ (by decide)

end AcpiTables.Tree
