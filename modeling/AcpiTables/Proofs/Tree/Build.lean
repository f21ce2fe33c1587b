import AcpiTables.Proofs.Tree.Grown
import AcpiTables.Proofs.Tree.Stands

/-!
# Building an object in a tree

An object whose names are written down can be made by builders, which put its bytes together
from the inside out (`AcpiTables.Aml.Object.write`). It can be made in a tree as well: then
requests make a node for each part and attach it to the one around it
(`AcpiTables.Aml.Object.build`), and the bytes come at the end. The two succeed on the same
objects, and the second way leaves the object standing in the tree
(`AcpiTables.Tree.does_build`).

They are compared step by step: `AcpiTables.Tree.Does` says that a request succeeds exactly
if a computation without a tree does, and what the tree is like then. What carries the
comparison is that no step touches what was in the tree before (`AcpiTables.Tree.Made`,
`AcpiTables.Tree.Extended`). The parts that are finished keep standing while the next ones
are made.
-/

namespace AcpiTables

/-! ### Requests that build an object -/

namespace Aml

/-- Makes nodes for descriptors and attaches them to a buffer, in order. -/
def addDescriptors (buffer : Handle) : List Bytes → TreeM Unit
  | [] => return ()
  | d :: ds => do
    let descriptor ← Tree.makeData .resourceData d
    Tree.attach buffer descriptor
    addDescriptors buffer ds

/-- Makes a buffer and its descriptors. -/
def buildBuffer (descriptors : List Bytes) : TreeM Handle := do
  let buffer ← Tree.makeObject .buffer none
  addDescriptors buffer descriptors
  return buffer

/-- Makes a value. -/
def Value.build : Value → TreeM Handle
  | encoded bytes => Tree.makeData .raw bytes
  | buffer descriptors => buildBuffer descriptors

mutual

/-- Makes an object: a `Name` after its value, and a region before its members. -/
def Object.build : Object String → TreeM Handle
  | .name label value => do
    let value ← value.build
    Tree.makeName label value
  | .buffer descriptors => buildBuffer descriptors
  | .region kind label members => do
    let region ← Tree.makeObject (.region kind) (some label)
    addMembers region members
    return region

/-- Makes objects and attaches them to a region, in order. -/
def Object.addMembers (region : Handle) : List (Object String) → TreeM Unit
  | [] => return ()
  | m :: ms => do
    let member ← m.build
    Tree.attach region member
    addMembers region ms

end

end Aml

namespace Tree

/-! ### Building is making requests -/

/-- A tree that requests make from another one. -/
def Follows (t t' : Tree) : Prop := ∃ requests : List Request, t' = requests.foldl Request.apply t

instance : IsPreorder Tree Follows where
  refl _ := ⟨[], rfl⟩
  trans _ _ _ := by
    rintro ⟨requests, rfl⟩ ⟨requests', rfl⟩
    exact ⟨requests ++ requests', by rw [List.foldl_append]⟩

theorem Follows.leads {t t' : Tree} (hf : t.Follows t') : Leads (fun _ => True) t t' := by
  obtain ⟨requests, rfl⟩ := hf
  exact related_foldl (fun r _ t => r.leads Kind.criterion_true r.allowed_true t) t

theorem follows_makeData (type : DataType) (bytes : Bytes) :
    Keeps Follows (makeData type bytes) := fun _ => ⟨[.makeData type bytes], rfl⟩

theorem follows_makeObject (opcode : Opcode) (name : Option String) :
    Keeps Follows (makeObject opcode name) := fun _ => ⟨[.makeObject opcode name], rfl⟩

theorem follows_makeName (name : String) (value : Handle) :
    Keeps Follows (makeName name value) := fun _ => ⟨[.makeName name value], rfl⟩

theorem follows_attach (parent h : Handle) : Keeps Follows (attach parent h) :=
  fun _ => ⟨[.attach parent h], rfl⟩

theorem follows_addDescriptors (buffer : Handle) (ds : List Bytes) :
    Keeps Follows (Aml.addDescriptors buffer ds) := by
  induction ds with
  | nil => exact Keeps.pure ()
  | cons d ds ih =>
    refine (follows_makeData _ d).andThen fun descriptor => ?_
    exact (follows_attach buffer descriptor).andThen fun _ => ih

theorem follows_buildBuffer (ds : List Bytes) : Keeps Follows (Aml.buildBuffer ds) := by
  refine (follows_makeObject .buffer none).andThen fun buffer => ?_
  exact (follows_addDescriptors buffer ds).andThen fun _ => Keeps.pure buffer

theorem follows_buildValue (value : Aml.Value) : Keeps Follows value.build := by
  cases value with
  | encoded bytes => exact follows_makeData .raw bytes
  | buffer ds => exact follows_buildBuffer ds

mutual

theorem follows_build : ∀ o : Aml.Object String, Keeps Follows o.build
  | .name label value => by
    rw [Aml.Object.build]
    exact (follows_buildValue value).andThen fun value => follows_makeName label value
  | .buffer ds => by
    rw [Aml.Object.build]
    exact follows_buildBuffer ds
  | .region kind label members => by
    rw [Aml.Object.build]
    refine (follows_makeObject (.region kind) (some label)).andThen fun region => ?_
    exact (follows_addMembers region members).andThen fun _ => Keeps.pure region

theorem follows_addMembers (region : Handle) :
    ∀ ms : List (Aml.Object String), Keeps Follows (Aml.Object.addMembers region ms)
  | [] => Keeps.pure ()
  | m :: ms => by
    rw [Aml.Object.addMembers]
    refine (follows_build m).andThen fun member => ?_
    exact (follows_attach region member).andThen fun _ => follows_addMembers region ms

end

/-! ### Doing what a computation does -/

section Does

variable {α β γ δ : Type} {t : Tree}

/-- A run succeeds exactly if a computation does, and then something holds of its result. -/
def Agrees (r : Except Error α) (run : EStateM.Result Error Tree β) (Q : β → Tree → Prop) : Prop :=
  match r, run with
  | .ok _, .ok b t => Q b t
  | .error _, .error _ _ => True
  | _, _ => False

/-- **A request does in a sound tree what a computation does**, as long as the slots have
numbers of their own afterwards. -/
def Does (t : Tree) (m : TreeM β) (r : Except Error α) (Q : β → Tree → Prop) : Prop :=
  t.Sound (fun _ => True) → (after m t).Fits → Agrees r (m t) Q

theorem Does.pure {a : α} {b : β} {Q : β → Tree → Prop} (hQ : Q b t) :
    Does t (Pure.pure b) (Pure.pure a : Except Error α) Q := fun _ _ => hQ

/-- One request after the other does what one computation after the other does. -/
theorem Does.bind {m : TreeM β} {f : β → TreeM δ} {r : Except Error α} {g : α → Except Error γ}
    {Q : β → Tree → Prop} {Q' : δ → Tree → Prop} (hm : Does t m r Q)
    (hf : ∀ a b t', t'.Sound (fun _ => True) → Q b t' → Does t' (f b) (g a) Q')
    (hm' : Keeps Follows m) (hf' : ∀ b, Keeps Follows (f b)) :
    Does t (m >>= f) (r >>= g) Q' := by
  intro hs hfit
  have hlead := (hm' t).leads
  cases hrun : m t with
  | error e t' =>
    rw [after_bind_error hrun] at hfit
    have hagree := hm hs (by rwa [after_error hrun])
    rw [hrun] at hagree
    rw [bind_error hrun]
    cases r with
    | error e' => trivial
    | ok a => exact absurd hagree id
  | ok b t' =>
    rw [after_bind_ok hrun] at hfit
    rw [after_ok hrun] at hlead
    have hfit' : t'.Fits := (hf' b t').leads.1.fits hfit
    have hagree := hm hs (by rwa [after_ok hrun])
    rw [hrun] at hagree
    rw [bind_ok hrun]
    cases r with
    | error e => exact absurd hagree id
    | ok a =>
      have hs' := hlead.2 hfit' hs
      exact hf a b t' hs' hagree hs' hfit

/-- A request comes first that cannot fail, for a computation without a step for it. -/
theorem Does.first {m : TreeM β} {f : β → TreeM δ} {r : Except Error γ} {Q : β → Tree → Prop}
    {Q' : δ → Tree → Prop} (hm : Does t m (Pure.pure () : Except Error Unit) Q)
    (hf : ∀ b t', t'.Sound (fun _ => True) → Q b t' → Does t' (f b) r Q')
    (hm' : Keeps Follows m) (hf' : ∀ b, Keeps Follows (f b)) : Does t (m >>= f) r Q' :=
  hm.bind (g := fun _ => r) (fun _ => hf) hm' hf'

/-- The result of the computation may be put in other words, and so may what holds. -/
theorem Does.map {m : TreeM β} {r : Except Error α} {Q Q' : β → Tree → Prop} (hm : Does t m r Q)
    (g : α → γ) (hQ : ∀ b t', Q b t' → Q' b t') :
    Does t m (r >>= fun a => Pure.pure (g a)) Q' := by
  intro hs hfit
  have hagree := hm hs hfit
  cases hrun : m t with
  | error e t' =>
    rw [hrun] at hagree
    cases r with
    | error e' => trivial
    | ok a => exact absurd hagree id
  | ok b t' =>
    rw [hrun] at hagree
    cases r with
    | error e => exact absurd hagree id
    | ok a => exact hQ b t' hagree

end Does

/-! ### What one step makes -/

section Steps

variable {t t' : Tree} {h p x : Handle} {content child : Content} {node : Node}

/-- **A new detached node in an otherwise untouched tree.** -/
structure Made (t : Tree) (h : Handle) (content : Content) (t' : Tree) : Prop where
  /-- The handle denoted nothing. -/
  new : t.find? h = none
  /-- The node is there, detached. -/
  found : t'.find? h = some ⟨content, none⟩
  /-- Every other node is as it was. -/
  kept : ∀ x node, t.find? x = some node → t'.find? x = some node

/-- Nodes that were there are other nodes. -/
theorem Made.ne (hm : t.Made h content t') (hx : t.find? x = some node) : x ≠ h := fun he => by
  rw [he, hm.new] at hx
  exact nomatch hx

theorem made_allocate (hs : t.Sound fun _ => True) (content : Content)
    (hfit : (t.allocate content).2.Fits) :
    Made t (t.allocate content).1 content (t.allocate content).2 := by
  have hnew := hs.accounts.find?_allocate_fst content hfit
  have hfind := hs.accounts.find?_allocate content hfit
  refine ⟨hnew, by rw [hfind, if_pos rfl], fun x node hx => ?_⟩
  have hne : x ≠ (t.allocate content).1 := fun he => by simp [he, hnew] at hx
  rw [hfind, if_neg hne, hx]

theorem does_makeData {type : DataType} {bytes : Bytes}
    (hd : requireData type bytes = .ok ()) :
    Does t (makeData type bytes) (Pure.pure () : Except Error Unit) fun h t' =>
      Made t h (.data type bytes) t' := by
  intro hs hfit
  have hrun : makeData type bytes t = .ok (t.allocate (.data type bytes)).1
      (t.allocate (.data type bytes)).2 := by rw [makeData_eq, hd]
  rw [after_ok hrun] at hfit
  rw [hrun]
  exact made_allocate hs _ hfit

theorem does_makeBuffer :
    Does t (makeObject .buffer none) (Pure.pure () : Except Error Unit) fun h t' =>
      Made t h (.buffer []) t' := by
  intro hs hfit
  have hrun : makeObject .buffer none t = _ := makeBuffer_eq t
  rw [after_ok hrun] at hfit
  rw [hrun]
  exact made_allocate hs _ hfit

theorem does_makeRegion (kind : Region) (name : String) :
    Does t (makeObject (.region kind) (some name)) (Aml.regionLabel kind name) fun h t' =>
      ∃ label bytes, Made t h (.region kind label []) t' ∧
        Aml.regionLabel kind name = .ok bytes ∧ t'.HasData .nameString bytes label := by
  intro hs hfit
  cases hname : Aml.regionLabel kind name with
  | error e =>
    have hrun : makeObject (.region kind) (some name) t = .error e t :=
      makeRegion_error hname t
    rw [hrun]
    trivial
  | ok bytes =>
    obtain ⟨h, label, t', hok, hg, hh, hlabel⟩ := hs.accounts.grown_makeRegion hname hfit
    have hrun : makeObject (.region kind) (some name) t = .ok h t' := hok
    rw [hrun]
    exact ⟨label, bytes, ⟨hg.new h List.mem_cons_self, hh, fun x node => hg.find?_old⟩, rfl, _,
      hlabel⟩

/-- Making a `Name` changes only the owner of the value. -/
theorem does_makeName {name : String} (hv : t.find? h = some ⟨content, none⟩)
    (hk : content.kind.isValue = true) :
    Does t (makeName name h) (Aml.objectName name false) fun r t' =>
      ∃ label bytes, t.find? r = none ∧ t'.find? r = some ⟨.name label h, none⟩ ∧
        Aml.objectName name false = .ok bytes ∧ t'.HasData .nameString bytes label ∧
        (∀ x node, x ≠ h → t.find? x = some node → t'.find? x = some node) ∧
        ∀ x, t.SameContent t' x := by
  intro hs hfit
  cases hname : Aml.objectName name false with
  | error e =>
    rcases makeName_cases name h t with ⟨e', herr⟩ | ⟨node, bytes, -, -, -, hok⟩
    · rw [herr]
      trivial
    · exact nomatch hname.symm.trans hok
  | ok bytes =>
    obtain ⟨r, label, t', hok, hm⟩ := hs.accounts.named hv hk hname hfit
    rw [hok]
    refine ⟨label, bytes, hm.find_object, hm.found, rfl, ⟨some r, hm.found_label⟩,
      fun x node hne hx => hm.find?_old hne hx, fun x node hx => ?_⟩
    by_cases he : x = h
    · subst he
      obtain rfl := Option.some.inj (hv.symm.trans hx)
      exact ⟨_, hm.found_value, rfl⟩
    · exact ⟨node, hm.find?_old he hx, rfl⟩

/-- **Attaching a node as the last child** changes the children of the parent and the owner of
the node. -/
theorem does_attach (hp : t.find? p = some ⟨content, none⟩)
    (hn : t.find? h = some ⟨child, none⟩) (hne : h ≠ p) (hacc : content.accepts child = true)
    (hopen : t.endsInTag content = false) :
    Does t (attach p h) (Pure.pure () : Except Error Unit) fun _ t' =>
      t'.find? p = some ⟨content.mapChildren (· ++ [h]), none⟩ ∧
        (∀ x node, x ≠ p → x ≠ h → t.find? x = some node → t'.find? x = some node) ∧
        ∀ x, x ≠ p → t.SameContent t' x := by
  intro hs hfit
  -- The parent is detached, so nothing but itself is above it.
  have hna : t.isAbove h p = false := by
    refine Bool.eq_false_iff.mpr fun hup => hne ?_
    exact View.eq_of_above_detached hp rfl (hs.isAbove_iff.mp hup)
  have ha : t.Attachable p h ⟨content, none⟩ ⟨child, none⟩ :=
    ⟨hp, hn, rfl, hna, hacc, fun ht => by simp [hopen] at ht⟩
  rw [attach_ok ha]
  have hfind := find?_relink hp hn hne.symm
    (·.mapChildren fun children => insertItem (t.endsInTag content) children h) (some p)
  refine ⟨?_, fun x node hxp hxh hx => ?_, fun x hxp node hx => ?_⟩
  · rw [attached, hfind, if_neg hne.symm, if_pos rfl, hopen]
    rfl
  · rw [attached, hfind, if_neg hxh, if_neg hxp, hx]
  · rw [attached, hfind]
    by_cases hxh : x = h
    · rw [if_pos hxh]
      refine ⟨_, rfl, ?_⟩
      rw [hxh, hn] at hx
      rw [← Option.some.inj hx]
    · rw [if_neg hxh, if_neg hxp]
      exact ⟨node, hx, rfl⟩

/-! ### Attaching what is made -/

/-- **A detached node with more children**, in an otherwise untouched tree. -/
structure Extended (t : Tree) (p : Handle) (content : Content) (new : List Handle) (t' : Tree) :
    Prop where
  /-- The node has the children behind those that it had. -/
  found : t'.find? p = some ⟨content.mapChildren (· ++ new), none⟩
  /-- Every other node is as it was. -/
  kept : ∀ x node, x ≠ p → t.find? x = some node → t'.find? x = some node

theorem extended_nil (hp : t.find? p = some ⟨content, none⟩) : t.Extended p content [] t := by
  have hsame : content.mapChildren (· ++ []) = content := by
    cases content <;> simp [Content.mapChildren]
  exact ⟨by rw [hsame, hp], fun _ _ _ hx => hx⟩

theorem Extended.sameContent {new : List Handle} (he : t.Extended p content new t') :
    ∀ x, x ≠ p → t.SameContent t' x := fun x hx node hn => ⟨node, he.kept x node hx hn, rfl⟩

/-- A new node whose children come later is a new node with these children. -/
theorem Made.extended {t₁ : Tree} {new : List Handle} (hm : t.Made h content t₁)
    (he : t₁.Extended h content new t') : t.Made h (content.mapChildren (· ++ new)) t' where
  new := hm.new
  found := he.found
  kept x node hx := he.kept x node (hm.ne hx) (hm.kept x node hx)

/-- **One more child is made and attached, then the rest.** What holds of the child has to last
as long as its nodes are spared. -/
theorem Does.attach_cons {α β γ : Type} {make : TreeM Handle} {rest : TreeM Unit}
    {r : Except Error α} {q : Except Error β} {g : α → β → γ} {ok : Content → Prop}
    {S : Tree → Handle → Prop} {R R' : Tree → List Handle → Prop}
    (hp : t.find? p = some ⟨content, none⟩) (hopen : t.endsInTag content = false)
    (hacc : ∀ child, ok child → content.accepts child = true)
    (hmake : Does t make r fun h t' => ∃ child, t.Made h child t' ∧ ok child ∧ S t' h)
    (hS : ∀ t t' h, View.Forest t.find? → t.Spares t' → t.SameContent t' h → S t h → S t' h)
    (hmake' : Keeps Follows make)
    (hrest : ∀ h child parent t', ok child → t'.find? h = some ⟨child, parent⟩ →
      t'.find? p = some ⟨content.mapChildren (· ++ [h]), none⟩ →
      Does t' rest q fun _ t'' =>
        ∃ new, t'.Extended p (content.mapChildren (· ++ [h])) new t'' ∧ R t'' new)
    (hrest' : Keeps Follows rest) (hR : ∀ t h new, S t h → R t new → R' t (h :: new)) :
    Does t (make >>= fun h => attach p h >>= fun _ => rest)
      (r >>= fun a => q >>= fun b => Pure.pure (g a b))
      fun _ t' => ∃ new, t.Extended p content new t' ∧ R' t' new := by
  intro hs hfit
  refine hmake.bind (fun a h t₁ hs₁ => ?_) hmake'
    (fun h => (follows_attach p h).andThen fun _ => hrest') hs hfit
  rintro ⟨child, hmade, hok, hchild₁⟩
  have hp₁ := hmade.kept p _ hp
  have hne : h ≠ p := (hmade.ne hp).symm
  have hopen₁ : t₁.endsInTag content = false :=
    (endsInTag_of_kept hs.toOrdered hp hmade.kept).trans hopen
  refine Does.first (does_attach hp₁ hmade.found hne (hacc child hok) hopen₁)
    (fun _ t₂ hs₂ => ?_) (follows_attach p h) fun _ => hrest'
  rintro ⟨hp₂, hkept₂, hsame₂⟩
  -- The child stands when it is made, when it is attached, and when the rest is there.
  have hchild₂ : S t₂ h :=
    hS t₁ t₂ h hs₁.forest (spares_of_detached hp₁ hsame₂) (hsame₂ h hne) hchild₁
  obtain ⟨⟨child, parent⟩, hh₂, rfl⟩ := hsame₂ h hne _ hmade.found
  refine (hrest h child parent t₂ hok hh₂ hp₂).map (g a) ?_
  rintro _ t₃ ⟨new, hext, hnew⟩
  have hchild₃ : S t₃ h := hS t₂ t₃ h hs₂.forest (spares_of_detached hp₂ hext.sameContent)
    (hext.sameContent h hne) hchild₂
  refine ⟨h :: new, ⟨?_, fun x node hx hn => ?_⟩, hR t₃ h new hchild₃ hnew⟩
  · rw [hext.found]
    cases content <;> simp [Content.mapChildren]
  · exact hext.kept x node hx (hkept₂ x node hx (hmade.ne hn) (hmade.kept x node hn))

/-! ### Building is doing -/

theorem does_addDescriptors {ds : List Bytes} {items : List Handle} (hds : Aml.EndWithTag ds)
    (hp : t.find? p = some ⟨.buffer items, none⟩)
    (hopen : ds ≠ [] → t.endsInTag (.buffer items) = false) :
    Does t (Aml.addDescriptors p ds) (Pure.pure () : Except Error Unit) fun _ t' =>
      ∃ new, t.Extended p (.buffer items) new t' ∧
        List.Forall₂ (t'.HasData .resourceData) ds new := by
  induction ds generalizing t items with
  | nil => exact Does.pure ⟨[], extended_nil hp, .nil⟩
  | cons d ds ih =>
    obtain ⟨header, hheader⟩ := hds.1 d List.mem_cons_self
    have hmake := does_makeData (t := t) (requireData_of_checkDescriptor hheader)
    refine Does.attach_cons (q := Pure.pure ()) (g := fun _ _ => ())
      (S := fun t => t.HasData .resourceData d)
      (R := fun t => List.Forall₂ (t.HasData .resourceData) ds) hp (hopen nofun) ?_
      (hmake.map id fun h t' hmade => ⟨_, hmade, rfl, none, hmade.found⟩)
      (fun _ _ _ _ _ hsame hd => hd.congr hsame) (follows_makeData _ d) ?_
      (follows_addDescriptors p ds) fun _ _ _ hd hall => .cons hd hall
    · rintro child rfl
      rfl
    · rintro h child parent t' rfl hh hp'
      refine ih hds.tail hp' fun hne => ?_
      -- Only the last descriptor is an End Tag, and more are to come.
      have hnot : Resource.startsWithEndTag d = false := by
        obtain ⟨next, hnext⟩ := List.exists_mem_of_ne_nil ds hne
        exact List.rel_of_pairwise_cons hds.2 hnext
      rw [endsInTag, List.getLast?_concat, Option.any_some, isEndTag_eq hh]
      exact hnot

/-- A buffer is built of its descriptors. -/
theorem does_buildBuffer {ds : List Bytes} (hds : Aml.EndWithTag ds) :
    Does t (Aml.buildBuffer ds) (Pure.pure () : Except Error Unit) fun h t' =>
      ∃ items, t.Made h (.buffer items) t' ∧ (Aml.Value.buffer ds).Stands t' h := by
  refine Does.first does_makeBuffer (fun h t₁ _ hmade => ?_) (follows_makeObject .buffer none)
    fun h => (follows_addDescriptors h ds).andThen fun _ => Keeps.pure h
  refine Does.first (does_addDescriptors hds hmade.found fun _ => rfl) (fun _ t₂ _ => ?_)
    (follows_addDescriptors h ds) fun _ => Keeps.pure h
  rintro ⟨new, hext, hall⟩
  exact Does.pure ⟨new, hmade.extended hext, new, none, hext.found, hall⟩

/-- **A value is built**, and stands where it was built. -/
theorem does_buildValue {value : Aml.Value} (hv : value.Proper) :
    Does t value.build (Pure.pure () : Except Error Unit) fun h t' =>
      ∃ content, t.Made h content t' ∧ content.kind.isValue = true ∧ value.Stands t' h := by
  cases value with
  | encoded bytes =>
    have hdata : requireData .raw bytes = .ok () :=
      if_neg fun he => hv (List.isEmpty_iff.mp he)
    refine (does_makeData hdata).map id fun h t' hmade => ?_
    exact ⟨_, hmade, rfl, none, hmade.found⟩
  | buffer ds =>
    refine (does_buildBuffer hv).map id ?_
    rintro h t' ⟨items, hmade, hstands⟩
    exact ⟨_, hmade, rfl, hstands⟩

mutual

/-- **Requests build an object exactly if builders can write it**, and the object stands where
it was built. -/
theorem does_build {t : Tree} : ∀ {o : Aml.Object String}, o.Proper →
    Does t o.build o.write fun h t' =>
      ∃ content, t.Made h content t' ∧ content.opcode.isSome = true ∧ o.Stands t' h
  | .name written value, .name hv => by
    rw [Aml.Object.build, Aml.Object.write, Aml.declareName]
    refine Does.first (does_buildValue hv) (fun v t₁ hs₁ => ?_) (follows_buildValue value)
      fun v => follows_makeName written v
    rintro ⟨content, hmade, hk, hvalue⟩
    refine (does_makeName hmade.found hk).map (Aml.declaration · value.encode) ?_
    rintro h t₂ ⟨label, bytes, hnew, hh, hname, hlabel, hkept, hsame⟩
    -- The value got an owner, but its content is what it was.
    have hvalue₂ : value.Stands t₂ v := hvalue.congr hs₁.forest (fun x _ _ => hsame x) (hsame v)
    refine ⟨_, ⟨?_, hh, fun x node hx => ?_⟩, rfl, ?_⟩
    · cases hold : t.find? h with
      | none => rfl
      | some node => exact (hmade.kept h node hold).symm.trans hnew
    · exact hkept x node (hmade.ne hx) (hmade.kept x node hx)
    · rw [Aml.Object.Stands]
      exact ⟨label, v, none, bytes, hh, hname, hlabel, hvalue₂⟩
  | .buffer ds, .buffer hds => by
    rw [Aml.Object.build, Aml.Object.write]
    refine (does_buildBuffer hds).map (fun _ => Aml.buffer ds.flatten) ?_
    rintro h t' ⟨items, hmade, hstands⟩
    refine ⟨_, hmade, rfl, ?_⟩
    rw [Aml.Object.Stands]
    exact hstands
  | .region kind written members, .region hms => by
    rw [Aml.Object.build, Aml.Object.write]
    refine (does_makeRegion kind written).bind (fun label h t₁ hs₁ => ?_)
      (follows_makeObject (.region kind) (some written))
      fun h => (follows_addMembers h members).andThen fun _ => Keeps.pure h
    rintro ⟨l, bytes, hmade, hname, parent, hlabel⟩
    refine (does_addMembers hms hmade.found).bind (fun parts _ t₂ _ => ?_)
      (follows_addMembers h members) fun _ => Keeps.pure h
    rintro ⟨new, hext, hall⟩
    have hne : l ≠ h := fun he => by
      rw [he, hmade.found] at hlabel
      exact nomatch hlabel
    refine Does.pure ⟨_, hmade.extended hext, rfl, ?_⟩
    rw [Aml.Object.Stands]
    exact ⟨l, new, none, bytes, hext.found, hname, ⟨parent, hext.kept l _ hne hlabel⟩, hall⟩

/-- **Members are built and attached** in order. -/
theorem does_addMembers {t : Tree} {p label : Handle} {kind : Region} {members : List Handle} :
    ∀ {ms : List (Aml.Object String)}, (∀ m ∈ ms, m.Proper) →
    t.find? p = some ⟨.region kind label members, none⟩ →
    Does t (Aml.Object.addMembers p ms) (Aml.Object.writeAll ms) fun _ t' =>
      ∃ new, t.Extended p (.region kind label members) new t' ∧ Aml.Object.StandAll t' ms new
  | [], _, hp => by
    rw [Aml.Object.writeAll]
    exact Does.pure ⟨[], extended_nil hp, trivial⟩
  | m :: ms, hms, hp => by
    rw [Aml.Object.addMembers, Aml.Object.writeAll]
    refine Does.attach_cons (S := fun t => m.Stands t) (R := fun t => Aml.Object.StandAll t ms)
      hp rfl (fun child hok => hok) (does_build (hms m List.mem_cons_self))
      (fun _ _ _ hf hsp hsame hm => hm.congr hf hsp hsame) (follows_build m)
      (fun h child parent t' hok hh hp' => ?_) (follows_addMembers p ms)
      fun _ _ _ hm hall => ⟨hm, hall⟩
    exact does_addMembers (fun x hx => hms x (List.mem_cons_of_mem m hx)) hp'

end

end Steps

end Tree

end AcpiTables
